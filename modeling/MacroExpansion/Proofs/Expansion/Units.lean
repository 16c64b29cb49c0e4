import MacroExpansion.Proofs.Expansion.Attribution
import MacroExpansion.Proofs.Grammar.File
import MacroExpansion.Proofs.Token.Preamble

/-!
# Copies of a template

The copies of a template are parsed together, as one file. A file of items may follow another after
a blank line, and each item stays what it is: no item goes on into the next, and a line break ends
every comment. Main statement: unless they start with what belongs to a file as a whole, copies that
are units alone have together the elements that each of them has.
-/
namespace MacroExpansion

open Text

/-! ## Items and their texts -/

/-- Two texts with an item of each: of the same kind, name and attributes, and with the same text
unless that counts from where its file starts. -/
structure Item.Agrees (x y : List Char × Item) : Prop where
  alike : Grammar.AlikeItems x.2 y.2
  cut : x.2.describe.isSome → (y.2.head.textIn? y.1).isSome = (x.2.head.textIn? x.1).isSome
  text : x.2.describe.isSome → x.2.head.displaced = false →
    y.2.head.textIn? y.1 = x.2.head.textIn? x.1

namespace Item.Agrees

variable {x y z : List Char × Item}

theorem refl (x : List Char × Item) : Item.Agrees x x :=
  ⟨Std.Refl.refl _, fun _ => rfl, fun _ _ => rfl⟩

theorem trans (first : Item.Agrees x y) (second : Item.Agrees y z) : Item.Agrees x z := by
  have told : y.2.describe.isSome = x.2.describe.isSome := by rw [first.alike.describe]
  refine ⟨⟨?_, fun described => ?_, fun described => ?_⟩,
    fun described => ?_, fun described own => ?_⟩
  · rw [second.alike.describe, first.alike.describe]
  · rw [second.alike.attributes (told.trans described), first.alike.attributes described]
  · rw [second.alike.displaced (told.trans described), first.alike.displaced described]
  · rw [second.cut (told.trans described), first.cut described]
  · rw [second.text (told.trans described) ((first.alike.displaced described).trans own),
      first.text described own]

theorem trans_all {xs ys zs : List (List Char × Item)} (first : List.Forall₂ Item.Agrees xs ys)
    (second : List.Forall₂ Item.Agrees ys zs) : List.Forall₂ Item.Agrees xs zs := by
  induction first generalizing zs with
  | nil => exact second
  | cons early _ ih =>
    obtain ⟨z, rest, late, later, rfl⟩ := List.forall₂_cons_left_iff.mp second
    exact .cons (early.trans late) (ih later)

/-- An item that is read in front of more text. -/
theorem of_front {xs : List Char} {i j : Item} (moved : i.Moved 0 0 j)
    (within : i.describe.isSome → i.head.extent.stop.offset ≤ byteSize xs) (post : List Char) :
    Item.Agrees (xs, i) (xs ++ post, j) := by
  have same (described : i.describe.isSome) : j.head.textIn? (xs ++ post) = i.head.textIn? xs := by
    have start := (moved.extent described).start
    have stop := (moved.extent described).stop
    have range : j.head.range = i.head.range := by
      unfold ItemHead.range
      rw [moved.alike.displaced described, Nat.add_right_cancel start, Nat.add_right_cancel stop]
    rw [ItemHead.textIn?, range]
    exact slice?_append_left (within described) post
  exact ⟨moved.alike, fun described => by rw [same described], fun described _ => same described⟩

/-- An item that is read behind other text. -/
theorem of_back {ys : List Char} {i j : Item} (front : List Char)
    (moved : i.Moved 0 (byteSize front) j) : Item.Agrees (ys, i) (front ++ ys, j) := by
  have shifted (described : i.describe.isSome) :
      j.head.extent.start.offset = byteSize front + i.head.extent.start.offset ∧
        j.head.extent.stop.offset = byteSize front + i.head.extent.stop.offset := by
    have start := (moved.extent described).start
    have stop := (moved.extent described).stop
    omega
  have own (described : i.describe.isSome) (here : i.head.displaced = false) :
      j.head.textIn? (front ++ ys) = i.head.textIn? ys := by
    obtain ⟨start, stop⟩ := shifted described
    have there := (moved.alike.displaced described).trans here
    simp only [ItemHead.textIn?, ItemHead.range, here, there, Bool.false_eq_true, ↓reduceIte, start,
      stop]
    exact slice?_append_right front ys _ _
  refine ⟨moved.alike, fun described => ?_, own⟩
  cases here : i.head.displaced with
  | false =>
    rw [own described here]
  | true =>
    have there := (moved.alike.displaced described).trans here
    simp only [ItemHead.textIn?, ItemHead.range, here, there, ↓reduceIte, (shifted described).2]
    rw [slice?_zero_append]
    cases slice? ys 0 i.head.extent.stop.offset <;> rfl

end Item.Agrees

/-! ## Files that are joined -/

theorem parseFile_eq_ok {code : List Char} {items : List Item} :
    Grammar.parseFile code = .ok items ↔ ∃ ts, TokenTree.ofText? code = some ts ∧
      Grammar.parseAll (Grammar.fileItems (Grammar.rulesFor ts)) ts = .ok items := by
  unfold Grammar.parseFile Grammar.parseText
  cases found : TokenTree.ofText? code with
  | none =>
    refine ⟨fun read => ?_, fun ⟨_, missing, _⟩ => nomatch missing⟩
    cases read
  | some ts => exact ⟨fun read => ⟨ts, rfl, read⟩, fun ⟨_, same, read⟩ => by cases same; exact read⟩

/-- A text that may stand within a file: it starts with no byte-order mark and with nothing that
belongs to the file as a whole. -/
structure Joins (code : List Char) : Prop where
  unmarked : code.head? ≠ some byteOrderMark
  bare : ∀ ts, TokenTree.ofText? code = some ts → Grammar.Look.innerAttribute ts = false

/-- The items of a text, each with the text. -/
def itemsIn (code : List Char) (items : List Item) : List (List Char × Item) :=
  items.map fun i => (code, i)

/-- A file with items goes on after a blank line as the file that follows it. -/
theorem parseFile_append {xs ys : List Char} {items later : List Item}
    (first : Grammar.parseFile xs = .ok items) (nonempty : items ≠ [])
    (second : Grammar.parseFile ys = .ok later) (joins : Joins ys) :
    ∃ found, Grammar.parseFile (xs ++ Template.blankLine ++ ys) = .ok found ∧
      List.Forall₂ Item.Agrees (itemsIn xs items ++ itemsIn ys later)
        (itemsIn (xs ++ Template.blankLine ++ ys) found) := by
  obtain ⟨ts, scanned, read⟩ := parseFile_eq_ok.mp first
  obtain ⟨us, scannedLater, readLater⟩ := parseFile_eq_ok.mp second
  obtain ⟨moved, whole, same⟩ := TokenTree.ofText?_append scanned scannedLater joins.unmarked
  obtain ⟨items', later', both, early, late⟩ := Grammar.file_append read nonempty
    readLater (joins.bare us scannedLater) same
  have text : xs ++ Template.blankLine ++ ys = xs ++ '\n' :: '\n' :: ys := by
    simp [Template.blankLine]
  refine ⟨items' ++ later', ?_, ?_⟩
  · rw [text]
    exact parseFile_eq_ok.mpr ⟨_, whole, both⟩
  unfold itemsIn
  rw [List.map_append]
  refine List.rel_append ?_ ?_
  · have within : ∀ i ∈ items,
        i.describe.isSome → i.head.extent.stop.offset ≤ byteSize xs := fun i member _ => by
      obtain ⟨t, among, stop⟩ := Grammar.stop_of_mem_file read member
      rw [← stop]
      exact TokenTree.stop_le_of_ofText? scanned among
    rw [List.append_assoc, List.forall₂_map_left_iff, List.forall₂_map_right_iff]
    exact ((List.forall₂_and_left _ _).mpr ⟨within, early⟩).imp fun i j both =>
      .of_front both.2 both.1 _
  · have long : byteSize (xs ++ Template.blankLine) = byteSize xs + 2 := by
      rw [byteSize_append]
      rfl
    rw [← long] at late
    rw [List.forall₂_map_left_iff, List.forall₂_map_right_iff]
    exact late.imp fun i j moved => .of_back _ moved

/-- A file with items and the files after it are one file, with the items of each. -/
theorem parseFile_intercalate {first : List Char} {items : List Item}
    (read : Grammar.parseFile first = .ok items) (nonempty : items ≠ [])
    {later : List (List Char × List Item)}
    (joined : ∀ file ∈ later, Grammar.parseFile file.1 = .ok file.2 ∧ Joins file.1) :
    let whole := Template.blankLine.intercalate (first :: later.map Prod.fst)
    ∃ found, Grammar.parseFile whole = .ok found ∧
      List.Forall₂ Item.Agrees
        (itemsIn first items ++ later.flatMap fun file => itemsIn file.1 file.2)
        (itemsIn whole found) := by
  induction later generalizing first items with
  | nil =>
    rw [List.map_nil, List.intercalate_singleton, List.flatMap_nil, List.append_nil]
    exact ⟨items, read, List.forall₂_same.mpr fun x _ => .refl x⟩
  | cons file later ih =>
    obtain ⟨code, behind⟩ := file
    obtain ⟨readNext, joins⟩ := joined (code, behind) List.mem_cons_self
    obtain ⟨both, readBoth, sameBoth⟩ := parseFile_append read nonempty readNext joins
    have more : both ≠ [] := by
      rintro rfl
      have lengths := sameBoth.length_eq
      simp only [itemsIn, List.length_append, List.length_map, List.map_nil, List.length_nil]
        at lengths
      exact nonempty (List.length_eq_zero_iff.mp (by omega))
    obtain ⟨found, whole, same⟩ :=
      ih readBoth more fun file member => joined file (List.mem_cons_of_mem _ member)
    have text : Template.blankLine.intercalate (first :: code :: later.map Prod.fst) =
        Template.blankLine.intercalate
          ((first ++ Template.blankLine ++ code) :: later.map Prod.fst) := by
      cases later with
      | nil => simp [List.intercalate_cons_cons, List.intercalate_singleton]
      | cons file later => simp [List.intercalate_cons_cons]
    rw [List.map_cons, text, List.flatMap_cons, ← List.append_assoc]
    refine ⟨found, whole, Item.Agrees.trans_all (List.rel_append sameBoth ?_) same⟩
    exact List.forall₂_same.mpr fun x _ => .refl x

/-! ## Units -/

/-- The element that an item of a file is, with the item. -/
def elementIn? (fileName : String) (invocation : Option Span) (x : List Char × Item) :
    Option (Item × Element) := do
  let description ← x.2.describe
  let text ← x.2.head.textIn? x.1
  return (x.2, {
    kind := description.kind
    name := description.name
    attributes := x.2.head.attributes
    text := String.ofList text
    span := Span.within invocation (x.2.head.extent.place fileName) })

/-- Two items with what they are as elements: of the same kind, name and attributes, and with the
same text unless the first counts from where its file starts. -/
structure Element.Agrees (x y : Item × Element) : Prop where
  kind : y.2.kind = x.2.kind
  name : y.2.name = x.2.name
  attributes : y.2.attributes = x.2.attributes
  text : x.1.head.displaced = false → y.2.text = x.2.text

theorem Element.Agrees.refl (x : Item × Element) : Element.Agrees x x :=
  ⟨rfl, rfl, rfl, fun _ => rfl⟩

theorem Item.Agrees.elementIn? {fileName : String} {invocation : Option Span}
    {x y : List Char × Item} (agrees : Item.Agrees x y) :
    Option.Rel Element.Agrees (MacroExpansion.elementIn? fileName invocation x)
      (MacroExpansion.elementIn? fileName invocation y) := by
  obtain ⟨code, i⟩ := x
  obtain ⟨code', j⟩ := y
  obtain ⟨alike, cut, text⟩ := agrees
  unfold MacroExpansion.elementIn?
  simp only [alike.describe]
  cases told : i.describe with
  | none => exact .none
  | some description =>
    have described : i.describe.isSome := by rw [told]; rfl
    have found := cut described
    have own := text described
    have attributes := alike.attributes described
    dsimp only at found own
    cases here : i.head.textIn? code with
    | none =>
      rw [here, Option.isSome_none, Option.isSome_eq_false_iff, Option.isNone_iff_eq_none] at found
      rw [found]
      exact .none
    | some text =>
      rw [here, Option.isSome_some, Option.isSome_iff_exists] at found
      obtain ⟨text', there⟩ := found
      rw [here, there] at own
      rw [there]
      refine .some ⟨rfl, rfl, attributes, fun placed => ?_⟩
      rw [Option.some.inj (own placed)]

namespace ScratchUnit

/-- The elements of a unit, each with its item. -/
def told (u : ScratchUnit) (invocation : Option Span) : List (Item × Element) :=
  (itemsIn (stripPreamble u.text) u.items).filterMap (elementIn? u.fileName invocation)

/-- Items are cut from the text without its preamble. -/
theorem textOf?_eq (u : ScratchUnit) (head : ItemHead) :
    u.textOf? head = head.textIn? (stripPreamble u.text) := by
  obtain ⟨front, whole⟩ := stripPreamble_suffix u.text
  have bytes : u.preamble = byteSize front := by
    have long := congrArg byteSize whole
    rw [byteSize_append] at long
    unfold preamble
    omega
  have cut := slice?_append_right front (stripPreamble u.text) head.range.1 head.range.2
  rw [whole] at cut
  rw [textOf?, rangeOf, bytes, Nat.add_comm head.range.1, Nat.add_comm head.range.2]
  exact cut

theorem map_told (u : ScratchUnit) (invocation : Option Span) :
    (u.told invocation).map Prod.snd = u.elements invocation := by
  unfold told itemsIn elements
  rw [List.filterMap_map, List.map_filterMap]
  congr 1
  funext i
  rw [element?, Function.comp_apply, elementIn?, textOf?_eq]
  cases i.describe with
  | none => rfl
  | some description => cases i.head.textIn? (stripPreamble u.text) <;> rfl

theorem result_parse (fileName : String) (text : List Char) :
    (parse fileName text).result =
      (Grammar.parseFile (codeOf text)).map fun items => ⟨fileName, text, items⟩ := by
  have quiet (items : List Item) : (pure ⟨fileName, text, items⟩ :
      Eventful SyntaxError ScratchUnit).Quiet := Eventful.quiet_pure _
  unfold parse
  rw [(Eventful.quiet_report rfl).result_bind fun _ =>
      (Eventful.quiet_ofAttempt _).bind fun items => quiet items, Eventful.result_report]
  change (Eventful.ofAttempt (Grammar.parseFile (codeOf text)) >>= _).result = _
  rw [(Eventful.quiet_ofAttempt _).result_bind quiet, Eventful.result_ofAttempt]
  cases Grammar.parseFile (codeOf text) <;> rfl

end ScratchUnit

/-- A text is parsed as a unit and its elements are given. -/
structure Resynthesized (text : List Char) (invocation : Span) (u : ScratchUnit) : Prop where
  parsed : (ScratchUnit.parse ScratchUnit.expansionFile text).result = .ok u
  given : (resynthesize text invocation).result = .ok (u.elements (some invocation))

namespace Resynthesized

variable {text : List Char} {invocation : Span} {u : ScratchUnit}

theorem result_eq (text : List Char) (invocation : Span) :
    (resynthesize text invocation).result =
      Attempt.mapError ExpandError.resynthesisFailed
        (ScratchUnit.parse ScratchUnit.expansionFile text).result >>=
          someElements invocation :=
  result_resynthesize_eq text invocation

theorem of_elements (parsed : (ScratchUnit.parse ScratchUnit.expansionFile text).result = .ok u)
    (nonempty : u.elements (some invocation) ≠ []) : Resynthesized text invocation u := by
  refine ⟨parsed, ?_⟩
  rw [result_eq, parsed, Attempt.mapError_ok]
  change someElements invocation u = _
  unfold someElements
  split
  next empty => exact absurd empty nonempty
  next => rfl

/-- Whatever elements are given are those of a unit. -/
theorem of_given {elements : List Element}
    (given : (resynthesize text invocation).result = .ok elements) :
    ∃ u, Resynthesized text invocation u ∧ elements = u.elements (some invocation) := by
  have read := given
  rw [result_eq] at read
  obtain ⟨u, parsed, made⟩ := Attempt.of_bind_ok read
  have same : elements = u.elements (some invocation) := by
    unfold someElements at made
    split at made
    · cases made
    · exact (Except.ok.inj made).symm
  exact ⟨u, ⟨Attempt.of_mapError_ok parsed, same ▸ given⟩, same⟩

/-- A unit is made of the items of its text, and of some. -/
theorem read (h : Resynthesized text invocation u) :
    Grammar.parseFile (codeOf text) = .ok u.items ∧ u.text = text ∧
      u.fileName = ScratchUnit.expansionFile ∧ u.items ≠ [] := by
  have parsed := h.parsed
  rw [ScratchUnit.result_parse] at parsed
  obtain ⟨items, read, rfl⟩ := Attempt.of_map_ok parsed
  refine ⟨read, rfl, rfl, ?_⟩
  rintro rfl
  exact ne_nil_of_resynthesize h.given rfl

end Resynthesized

/-! ## Copies of a template -/

/-- Nothing in front of a text belongs to the file that it stands in, as far as lines go. -/
theorem Joins.code {text : List Char} (joins : Joins text) (unled : Unled text) :
    codeOf text = text ∧ stripPreamble text = text := by
  have same : dropByteOrderMark text = text := by
    cases text with
    | nil => rfl
    | cons c cs =>
      rw [dropByteOrderMark, if_neg]
      rintro rfl
      exact joins.unmarked rfl
  exact ⟨unled.scanned.trans same, unled.cut.trans same⟩

/-- The preamble of a text is that of the texts that it starts. -/
theorem Text.Unled.intercalate {first : List Char} (unled : Unled first) (nonempty : first ≠ [])
    (later : List (List Char)) :
    let whole := Template.blankLine.intercalate (first :: later)
    let code := Template.blankLine.intercalate (dropByteOrderMark first :: later)
    codeOf whole = code ∧ stripPreamble whole = code := by
  cases later with
  | nil =>
    simp only [List.intercalate_singleton]
    exact ⟨unled.scanned, unled.cut⟩
  | cons text later =>
    have more : Unled (first ++ (Template.blankLine ++
        Template.blankLine.intercalate (text :: later))) := unled.append nonempty _
    have marked := dropByteOrderMark_append nonempty (Template.blankLine ++
      Template.blankLine.intercalate (text :: later))
    rw [List.intercalate_cons_cons, List.intercalate_cons_cons, List.append_assoc,
      List.append_assoc, ← marked]
    exact ⟨more.scanned, more.cut⟩

theorem ScratchUnit.told_eq {u : ScratchUnit} {code : List Char}
    (file : u.fileName = expansionFile) (cut : stripPreamble u.text = code)
    (invocation : Option Span) :
    u.told invocation =
      (itemsIn code u.items).filterMap (elementIn? expansionFile invocation) := by
  rw [told, cut, file]

/-- Texts that are joined are one unit if each is one alone: its elements are those of the units,
each as it is in its own. -/
theorem resynthesized_join {invocation : Span} {u : ScratchUnit} {units : List ScratchUnit}
    (alone : ∀ v ∈ u :: units, Resynthesized v.text invocation v)
    (unled : ∀ v ∈ u :: units, Unled v.text) (joins : ∀ v ∈ units, Joins v.text) :
    ∃ whole, Resynthesized
        (Template.blankLine.intercalate ((u :: units).map ScratchUnit.text)) invocation whole ∧
      List.Forall₂ Element.Agrees
        ((u :: units).flatMap fun v => v.told (some invocation))
        (whole.told (some invocation)) := by
  have aloneFirst := alone u List.mem_cons_self
  have unledFirst := unled u List.mem_cons_self
  obtain ⟨read, _, file, nonempty⟩ := aloneFirst.read
  have filled : u.text ≠ [] := by
    intro empty
    have nothing : Grammar.parseFile (codeOf []) = .ok [] := rfl
    rw [empty, nothing] at read
    exact nonempty (Except.ok.inj read).symm
  -- the texts that follow are read as they are
  have plain : ∀ v ∈ units, codeOf v.text = v.text ∧ stripPreamble v.text = v.text :=
    fun v member => (joins v member).code (unled v (List.mem_cons_of_mem u member))
  have joined : ∀ file ∈ units.map fun v => (v.text, v.items),
      Grammar.parseFile file.1 = .ok file.2 ∧ Joins file.1 := by
    intro file member
    obtain ⟨v, among, rfl⟩ := List.mem_map.mp member
    have read := (alone v (List.mem_cons_of_mem u among)).read.1
    rw [(plain v among).1] at read
    exact ⟨read, joins v among⟩
  rw [unledFirst.scanned] at read
  obtain ⟨found, whole, same⟩ := parseFile_intercalate read nonempty joined
  have texts : (units.map fun v => (v.text, v.items)).map Prod.fst =
      units.map ScratchUnit.text := List.map_map
  rw [texts] at whole same
  rw [List.flatMap_map] at same
  obtain ⟨scanned, cut⟩ := unledFirst.intercalate filled (units.map ScratchUnit.text)
  let text := Template.blankLine.intercalate ((u :: units).map ScratchUnit.text)
  have parsed : (ScratchUnit.parse ScratchUnit.expansionFile text).result =
      .ok ⟨ScratchUnit.expansionFile, text, found⟩ := by
    rw [ScratchUnit.result_parse, show codeOf text = _ from scanned, whole]
    rfl
  have agrees : List.Forall₂ Element.Agrees
      ((u :: units).flatMap fun v => v.told (some invocation))
      ((ScratchUnit.mk ScratchUnit.expansionFile text found).told (some invocation)) := by
    have later : (units.flatMap fun v => v.told (some invocation)) =
        (units.flatMap fun v => itemsIn v.text v.items).filterMap
          (elementIn? ScratchUnit.expansionFile (some invocation)) := by
      rw [List.filterMap_flatMap]
      refine List.flatMap_congr fun v member => ?_
      have file := (alone v (List.mem_cons_of_mem u member)).read.2.2.1
      exact ScratchUnit.told_eq file (plain v member).2 _
    rw [List.flatMap_cons, ScratchUnit.told_eq file unledFirst.cut, later,
      ← List.filterMap_append, ScratchUnit.told_eq rfl cut]
    exact List.rel_filterMap (fun _ _ agrees => agrees.elementIn?) same
  refine ⟨_, .of_elements parsed fun empty => ?_, agrees⟩
  have nonempty := ne_nil_of_resynthesize aloneFirst.given
  rw [← ScratchUnit.map_told, List.map_eq_nil_iff] at empty
  rw [empty, List.forall₂_nil_right_iff, List.flatMap_cons, List.append_eq_nil_iff] at agrees
  rw [← ScratchUnit.map_told, agrees.1] at nonempty
  exact nonempty rfl

/-- What corresponds to a member of a list is in the other list. -/
theorem of_mem_forall₂ {α β : Type} {R : α → β → Prop} {xs : List α} {ys : List β}
    (h : List.Forall₂ R xs ys) {y : β} (member : y ∈ ys) : ∃ x ∈ xs, R x y := by
  induction h with
  | nil => cases member
  | @cons x y _ _ first _ ih =>
    rcases List.mem_cons.mp member with rfl | later
    · exact ⟨x, List.mem_cons_self, first⟩
    · obtain ⟨x, among, same⟩ := ih later
      exact ⟨x, List.mem_cons_of_mem _ among, same⟩

/-- Each copy of a template is a unit of its own, if none has an interpreter line and none but the
first starts with what belongs to a file as a whole: if every copy alone has elements, the copies
together have the elements of each, of the same kind, name and attributes, and with the same text
unless that counts from where the file starts. -/
theorem copies_resynthesize_apart {template : List Char} {binding : Ident}
    {fragments : List (List Char)} {invocation : Span} {units : List ScratchUnit}
    (alone : List.Forall₂ (fun f u =>
      Resynthesized (Template.instantiate template binding [f]) invocation u) fragments units)
    (nonempty : fragments ≠ [])
    (unled : 1 < fragments.length →
      ∀ f ∈ fragments, Unled (Template.instantiate template binding [f]))
    (joins : ∀ f ∈ fragments.tail, Joins (Template.instantiate template binding [f])) :
    ∃ u, Resynthesized (Template.instantiate template binding fragments) invocation u ∧
      List.Forall₂ Element.Agrees (units.flatMap fun v => v.told (some invocation))
        (u.told (some invocation)) := by
  have single (f : List Char) : Template.paste (Template.placeholder binding) template f =
      Template.instantiate template binding [f] := List.intercalate_singleton.symm
  have texts : fragments.map (Template.paste (Template.placeholder binding) template) =
      units.map ScratchUnit.text := by
    rw [← List.forall₂_eq_eq_eq, List.forall₂_map_left_iff, List.forall₂_map_right_iff]
    exact alone.imp fun f v h => (single f).trans h.read.2.1.symm
  have whole : Template.instantiate template binding fragments =
      Template.blankLine.intercalate (units.map ScratchUnit.text) := by
    rw [Template.instantiate, texts]
  have drawn : ∀ v ∈ units, ∃ f ∈ fragments,
      Resynthesized (Template.instantiate template binding [f]) invocation v :=
    fun v member => of_mem_forall₂ alone member
  have drawnLater : ∀ v ∈ units.tail, ∃ f ∈ fragments.tail,
      Resynthesized (Template.instantiate template binding [f]) invocation v := by
    intro v member
    cases alone with
    | nil => cases member
    | cons _ later => exact of_mem_forall₂ later member
  have count := alone.length_eq
  match units with
  | [] => exact absurd (List.length_eq_zero_iff.mp count) nonempty
  | [u] =>
    -- a single copy is a unit as it is
    obtain ⟨f, rfl⟩ := List.length_eq_one_iff.mp count
    cases alone with
    | cons first _ =>
      refine ⟨u, first, ?_⟩
      rw [List.flatMap_singleton]
      exact List.forall₂_same.mpr fun x _ => .refl x
  | u :: v :: units =>
    have several : 1 < fragments.length := by rw [count]; simp
    rw [whole]
    refine resynthesized_join (fun w member => ?_) (fun w member => ?_) fun w member => ?_
    · obtain ⟨f, _, alone⟩ := drawn w member
      rw [alone.read.2.1]
      exact alone
    · obtain ⟨f, among, alone⟩ := drawn w member
      rw [alone.read.2.1]
      exact unled several f among
    · obtain ⟨f, among, alone⟩ := drawnLater w member
      rw [alone.read.2.1]
      exact joins f among

/-- Two copies of a template with an attribute, a comment at its end and an item of its own. -/
theorem copies_resynthesize_apart_commented :
    let template := "#[outer] $i fn used() \x7b\x7d // ends here".toList
    let fragments := ["struct A;".toList, "enum B \x7b\x7d".toList]
    let copy := fun f => Template.instantiate template ⟨"i"⟩ [f]
    (∀ f ∈ fragments, Unled (copy f)) ∧ (∀ f ∈ fragments.tail, Joins (copy f)) ∧
      ∃ units u, List.Forall₂ (fun f v => Resynthesized (copy f) .fake v) fragments units ∧
        Resynthesized (Template.instantiate template ⟨"i"⟩ fragments) .fake u ∧
        List.Forall₂ Element.Agrees (units.flatMap fun v => v.told (some .fake))
          (u.told (some .fake)) := by
  intro template fragments copy
  have unled : ∀ f ∈ fragments, Unled (copy f) := by
    have checked : ∀ f ∈ fragments, codeOf (copy f) = dropByteOrderMark (copy f) ∧
        stripPreamble (copy f) = dropByteOrderMark (copy f) := by
      decide +kernel
    exact fun f member => ⟨(checked f member).1, (checked f member).2⟩
  have joins : ∀ f ∈ fragments.tail, Joins (copy f) := by
    have checked : ∀ f ∈ fragments.tail, (copy f).head? ≠ some byteOrderMark ∧
        (TokenTree.ofText? (copy f)).all (fun ts => !Grammar.Look.innerAttribute ts) := by
      decide +kernel
    refine fun f member => ⟨(checked f member).1, fun ts found => ?_⟩
    have bare := (checked f member).2
    rw [found] at bare
    simpa using bare
  have given : ∀ f ∈ fragments, ∃ v, Resynthesized (copy f) .fake v := by
    have checked : ∀ f ∈ fragments, (resynthesize (copy f) .fake).result.toOption.isSome := by
      decide +kernel
    intro f member
    obtain ⟨elements, read⟩ := Option.isSome_iff_exists.mp (checked f member)
    obtain ⟨v, told, _⟩ := Resynthesized.of_given (Attempt.of_toOption read)
    exact ⟨v, told⟩
  obtain ⟨v, first⟩ := given _ List.mem_cons_self
  obtain ⟨w, second⟩ := given _ (List.mem_cons_of_mem _ List.mem_cons_self)
  have alone : List.Forall₂ (fun f v => Resynthesized (copy f) .fake v) fragments [v, w] :=
    .cons first (.cons second .nil)
  obtain ⟨u, whole, agrees⟩ :=
    copies_resynthesize_apart alone (List.cons_ne_nil _ _) (fun _ => unled) joins
  exact ⟨unled, joins, [v, w], u, alone, whole, agrees⟩

/-- Two copies of a template that starts with an inner attribute: each alone is a file with an
element, but the second attribute belongs to nothing. -/
theorem copies_share_inner_attributes :
    let source :=
      "macro_rules! m \x7b ($($i:item)*) => ($(#![allow(dead_code)] $i)*) \x7d".toList
    let fragments := ["struct A;".toList, "struct B;".toList]
    ∃ rules shape template, RuleSet.parse source = .ok rules ∧
      SupportedShape.ofRules rules = .ok shape ∧ extractTemplate source shape = some template ∧
      (∀ f ∈ fragments, ∃ elements,
        (resynthesize (Template.instantiate template shape.binding [f]) .fake).result =
          .ok elements) ∧
      ∀ elements,
        (resynthesize (Template.instantiate template shape.binding fragments) .fake).result ≠
          .ok elements := by
  intro source fragments
  have checked : (RuleSet.parse source).toOption.bind (fun rules =>
      (SupportedShape.ofRules rules).toOption.bind fun shape =>
        (extractTemplate source shape).map fun template =>
          (fragments.all fun f =>
            (resynthesize (Template.instantiate template shape.binding [f])
              .fake).result.toOption.isSome,
            (resynthesize (Template.instantiate template shape.binding fragments)
              .fake).result.toOption)) = some (true, none) := by
    decide +kernel
  obtain ⟨rules, read, judged⟩ := Option.bind_eq_some_iff.mp checked
  obtain ⟨shape, found, told⟩ := Option.bind_eq_some_iff.mp judged
  obtain ⟨template, extracted, told⟩ := Option.map_eq_some_iff.mp told
  obtain ⟨alone, together⟩ := Prod.mk.inj told
  refine ⟨rules, shape, template, Attempt.of_toOption read, Attempt.of_toOption found, extracted,
    fun f member => ?_, fun elements given => ?_⟩
  · obtain ⟨elements, given⟩ :=
      Option.isSome_iff_exists.mp (List.all_eq_true.mp alone f member)
    exact ⟨elements, Attempt.of_toOption given⟩
  · rw [given] at together
    cases together

end MacroExpansion
