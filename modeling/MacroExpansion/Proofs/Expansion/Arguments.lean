import MacroExpansion.Proofs.Walk.Alone

/-!
# Arguments of an invocation

Each argument is cut out of the text of the arguments as an item of it. Main statement: where the
rules of the cut and of the scanner agree and no item but the first counts as starting before it
does, the fragments stand one behind another, and each is a file of its own with just the item that
it was cut for.
-/
namespace MacroExpansion

open Grammar TokenTree Text

/-! ## Fragments -/

/-- One fragment ends before another starts. -/
def ArgumentFragment.Precedes (f g : ArgumentFragment) : Prop :=
  f.stop ≤ g.start

instance (f g : ArgumentFragment) : Decidable (f.Precedes g) :=
  inferInstanceAs (Decidable (f.stop ≤ g.start))

/-- A fragment is the stretch of an item's tokens, and as a file of its own it has that item
alone. -/
structure ArgumentFragment.IsOf (f : ArgumentFragment) (text : List Char) (i : Item) : Prop where
  stands : ∃ taken pre own, Item.Stands (codeOf text) .module i taken pre own ∧
    f.text = if i.head.displaced then pre ++ own else own
  cut : slice? text f.start f.stop = some f.text
  filled : f.start < f.stop
  alone : ∃ j, parseFile (codeOf f.text) = .ok [j] ∧ AlikeItems i j

/-- If every member of a list is given a value, the values correspond to the members. -/
theorem forall₂_filterMap {α β : Type} {g : α → Option β} {R : β → α → Prop} {xs : List α}
    (each : ∀ x ∈ xs, ∃ y, g x = some y ∧ R y x) : List.Forall₂ R (xs.filterMap g) xs := by
  induction xs with
  | nil => exact .nil
  | cons x xs ih =>
    obtain ⟨y, given, related⟩ := each x List.mem_cons_self
    rw [List.filterMap_cons_some given]
    exact .cons related (ih fun z among => each z (List.mem_cons_of_mem _ among))

/-- Where a text was cut out that is not empty, its bytes are some. -/
theorem Text.lt_of_slice? {cs own : List Char} {start stop : Nat}
    (cut : slice? cs start stop = some own) (filled : own ≠ []) : start < stop := by
  rw [slice?] at cut
  split at cut
  next ordered =>
    refine Nat.lt_of_le_of_ne ordered fun same => filled ?_
    obtain ⟨rest, -, taken⟩ := Option.bind_eq_some_iff.mp cut
    rw [same, Nat.sub_self, takeBytes?_zero] at taken
    exact (Option.some.inj taken).symm
  next => cases cut

/-! ## Where the items of a text stand -/

/-- Runs of tokens that each close an item stand one behind another. -/
theorem stretches_ordered {cs : List Char} {front back : List TokenTree}
    {parts : List (List TokenTree)} (found : ofText? cs = some (front ++ (parts.flatten ++ back)))
    (closed : ∀ taken ∈ parts, Closed taken) :
    parts.Pairwise fun xs ys => (stretch xs).stop.offset ≤ (stretch ys).start.offset := by
  induction parts generalizing front with
  | nil => exact .nil
  | cons xs parts ih =>
    refine .cons (fun ys member => ?_) ?_
    · obtain ⟨inner, u, rfl, closes⟩ := closed xs List.mem_cons_self
      obtain ⟨c, sole, -⟩ := closes.sole
      obtain ⟨between, later, rfl⟩ := List.append_of_mem member
      obtain ⟨t, rest, rfl⟩ :=
        List.exists_cons_of_ne_nil (closed ys (List.mem_cons_of_mem _ member)).not_nil
      have row : ofText? cs = some ((front ++ inner) ++ u ::
          (between.flatten ++ t :: (rest ++ (later.flatten ++ back)))) := by
        simpa using found
      simpa [stretch] using stop_le_start_of_ofText? row sole
    · have row : ofText? cs = some ((front ++ xs) ++ (parts.flatten ++ back)) := by
        simpa using found
      exact ih row fun taken among => closed taken (List.mem_cons_of_mem _ among)

theorem Grammar.ItemRun.first {p : Parser Item} {c e : Cursor} {taken : List TokenTree} {i : Item}
    {later : List (List TokenTree × Item)} (run : ItemRun p c ((taken, i) :: later) e) :
    ∃ d, p c = .ok (i, d) ∧ Took taken c d := by
  cases run with
  | next one took _ _ => exact ⟨_, one, took⟩

/-! ## Arguments -/

/-- The fragment that an item of a unit is cut out as. -/
def ScratchUnit.fragment? (u : ScratchUnit) (i : Item) : Option ArgumentFragment := do
  let fragment ← u.textOf? i.head
  return ⟨fragment, (u.rangeOf i.head).1, (u.rangeOf i.head).2⟩

/-- What is accepted is parsed, and cut up item by item. -/
theorem of_parseArguments {text : List Char} {fragments : List ArgumentFragment}
    (accepted : (parseArguments text).result = .ok fragments) :
    ∃ items, parseFile (codeOf text) = .ok items ∧
      fragments =
        items.filterMap (ScratchUnit.fragment? ⟨ScratchUnit.argumentsFile, text, items⟩) := by
  have quiet := (ScratchUnit.quiet_parse ScratchUnit.argumentsFile text).mapError Malformed.reparse
  unfold parseArguments at accepted
  rw [quiet.result_bind fun _ => Eventful.quiet_pure _] at accepted
  obtain ⟨u, read, made⟩ := Attempt.of_bind_ok accepted
  have parsed : (ScratchUnit.parse ScratchUnit.argumentsFile text).result = .ok u :=
    Attempt.of_mapError_ok read
  rw [ScratchUnit.result_parse] at parsed
  obtain ⟨items, found, rfl⟩ := Attempt.of_map_ok parsed
  cases made
  exact ⟨items, found, rfl⟩

/-- A fragment is the text between its bytes. -/
theorem ScratchUnit.slice?_of_fragment? {u : ScratchUnit} {i : Item} {f : ArgumentFragment}
    (found : u.fragment? i = some f) : slice? u.text f.start f.stop = some f.text := by
  obtain ⟨fragment, cut, made⟩ := Option.bind_eq_some_iff.mp found
  cases made
  exact cut

theorem ScratchUnit.stop_of_fragment? {u : ScratchUnit} {i : Item} {f : ArgumentFragment}
    (found : u.fragment? i = some f) : f.stop = u.preamble + i.head.extent.stop.offset := by
  obtain ⟨fragment, cut, made⟩ := Option.bind_eq_some_iff.mp found
  cases made
  exact Nat.add_comm _ _

/-- An item that counts as starting where it does is cut out from there on. -/
theorem ScratchUnit.start_of_fragment? {u : ScratchUnit} {i : Item} {f : ArgumentFragment}
    (found : u.fragment? i = some f) (starts : i.head.displaced = false) :
    f.start = u.preamble + i.head.extent.start.offset := by
  obtain ⟨fragment, cut, made⟩ := Option.bind_eq_some_iff.mp found
  cases made
  have here : i.head.range.1 = i.head.extent.start.offset := by simp [ItemHead.range, starts]
  exact (congrArg (· + _) here).trans (Nat.add_comm _ _)

/-- What is cut out for an item ends before what is cut out for one that starts behind it. -/
theorem ScratchUnit.precedes {u : ScratchUnit} {i j : Item} {f g : ArgumentFragment}
    (found : u.fragment? i = some f) (found' : u.fragment? j = some g)
    (starts : j.head.displaced = false)
    (ordered : i.head.extent.stop.offset ≤ j.head.extent.start.offset) : f.Precedes g := by
  rw [ArgumentFragment.Precedes, stop_of_fragment? found, start_of_fragment? found' starts]
  exact Nat.add_le_add_left ordered _

/-- An item that stands in the text, and is an item alone as it is cut out, is cut out as a fragment
of its own. -/
theorem Item.Stands.isOf {text : List Char} {i : Item} {taken : List TokenTree}
    {pre own : List Char} (stands : Item.Stands (codeOf text) .module i taken pre own)
    (same : stripPreamble text = codeOf text)
    (alone : ∃ j, parseFile (codeOf (if i.head.displaced then pre ++ own else own)) = .ok [j] ∧
      AlikeItems i j) (fileName : String) (items : List Item) :
    let u : ScratchUnit := ⟨fileName, text, items⟩
    ∃ f, u.fragment? i = some f ∧ f.IsOf text i := by
  intro u
  have cut : u.textOf? i.head = some (if i.head.displaced then pre ++ own else own) := by
    rw [ScratchUnit.textOf?_eq, same, stands.textIn?]
  have found : u.fragment? i = some ⟨if i.head.displaced then pre ++ own else own,
      (u.rangeOf i.head).1, (u.rangeOf i.head).2⟩ := by
    rw [ScratchUnit.fragment?, cut]
    rfl
  have filled : (if i.head.displaced then pre ++ own else own) ≠ [] := fun nothing => by
    obtain ⟨j, parsed, -⟩ := alone
    rw [nothing] at parsed
    cases parsed
  have sliced := ScratchUnit.slice?_of_fragment? found
  exact ⟨_, found, ⟨taken, pre, own, stands, rfl⟩, sliced, lt_of_slice? sliced filled, alone⟩

/-- What a file reads as an item is cut out as a fragment of its own: the first item with what
stands before it, if it counts as starting there. -/
theorem isOf_of_run {text : List Char} {ts front : List TokenTree} {n : Nat} {names : List String}
    {c d : Cursor} {read : List (List TokenTree × Item)}
    (same : stripPreamble text = codeOf text) (scanned : ofText? (codeOf text) = some ts)
    (inner : innerAttributes ⟨ts, false, none⟩ = .ok (names, c)) (ahead : ts = front ++ c.rest)
    (run : ItemRun (rules (n + 1)).item c read d) (deep : 3 * (weightOfAll ts + 1) ≤ n + 1)
    (behind : ∀ x ∈ read.tail, x.2.head.displaced = false) (fileName : String)
    (items : List Item) {taken : List TokenTree} {i : Item} (member : (taken, i) ∈ read) :
    let u : ScratchUnit := ⟨fileName, text, items⟩
    Closed taken ∧ i.head.extent = stretch taken ∧ ∃ f, u.fragment? i = some f ∧ f.IsOf text i := by
  intro u
  obtain ⟨closed, ⟨early, late, row⟩, here, there, one, took⟩ := run.read_of_mem member
  have readOf : ReadOf taken .module i := .item one took closed
  have whole : ts = (front ++ early) ++ (taken ++ late) := by rw [ahead, row, List.append_assoc]
  obtain ⟨pre, own, stands⟩ := readOf.stands scanned ⟨front ++ early, late, whole ▸ .top⟩
  refine ⟨closed, readOf.extent, stands.isOf same ?_ _ _⟩
  have weight : weightOfAll (front ++ taken) ≤ weightOfAll ts := by
    simp only [whole, weightOfAll_append]
    omega
  cases displaced : i.head.displaced with
  | false =>
    rw [weightOfAll_append] at weight
    exact stands.parseFile_alone (by omega) one took closed
  | true =>
    obtain ⟨later, rfl⟩ : ∃ later, read = (taken, i) :: later := by
      cases read with
      | nil => cases member
      | cons x later =>
        rcases List.mem_cons.mp member with rfl | among
        · exact ⟨later, rfl⟩
        · rw [behind _ among] at displaced
          cases displaced
    obtain ⟨past, first, tookFirst⟩ := run.first
    exact stands.parseFile_front scanned inner ahead (by omega) first tookFirst closed

/-- Where the text that is cut is the one that is scanned, and no item but the first counts as
starting before it does, the fragments of a text stand one behind another, and each is a file of its
own with just the item that it was cut for. -/
theorem arguments_cut_apart {text : List Char} {fragments : List ArgumentFragment}
    (same : stripPreamble text = codeOf text)
    (behind : ∀ items, parseFile (codeOf text) = .ok items →
      ∀ i ∈ items.tail, i.head.displaced = false)
    (accepted : (parseArguments text).result = .ok fragments) :
    ∃ items, parseFile (codeOf text) = .ok items ∧
      List.Forall₂ (fun f i => f.IsOf text i) fragments items ∧
      fragments.Pairwise ArgumentFragment.Precedes := by
  obtain ⟨items, parsed, rfl⟩ := of_parseArguments accepted
  refine ⟨items, parsed, ?_⟩
  obtain ⟨ts, scanned, whole⟩ := parseFile_eq_ok.mp parsed
  obtain ⟨n, deep, nested⟩ := rulesFor_succ ts
  have enough : 3 * (weightOfAll ts + 1) ≤ n + 1 := by
    rw [nested, usesPerToken]
    omega
  rw [deep] at whole
  obtain ⟨attributes, c, read, d, inner, run, rfl, -⟩ := run_of_file whole
  have inert : Tracks (fun _ => True) true Eq innerAttributes innerAttributes := inferInstance
  obtain ⟨front, tookFront⟩ := inert.reads inner
  have ahead : ts = front ++ c.rest := tookFront.ahead
  have settled : ∀ x ∈ read.tail, x.2.head.displaced = false := fun x among =>
    behind _ parsed x.2 (List.map_tail ▸ List.mem_map_of_mem among)
  have each {taken : List TokenTree} {i : Item} (member : (taken, i) ∈ read) :=
    isOf_of_run same scanned inner ahead run enough settled ScratchUnit.argumentsFile
      (read.map Prod.snd) member
  constructor
  · refine forall₂_filterMap fun i member => ?_
    obtain ⟨⟨taken, _⟩, among, rfl⟩ := List.mem_map.mp member
    exact (each among).2.2
  · rw [List.pairwise_filterMap, List.pairwise_map]
    have row : ofText? (codeOf text) =
        some (front ++ ((read.map Prod.fst).flatten ++ d.rest)) := by
      rw [scanned, ahead, run.tokens]
    have ordered := stretches_ordered row fun taken member => by
      obtain ⟨⟨_, i⟩, among, rfl⟩ := List.mem_map.mp member
      exact (each among).1
    rw [List.pairwise_map] at ordered
    let u : ScratchUnit := ⟨ScratchUnit.argumentsFile, text, read.map Prod.snd⟩
    have precedes {x y : List TokenTree × Item} (first : x ∈ read) (second : y ∈ read.tail)
        (le : (stretch x.1).stop.offset ≤ (stretch y.1).start.offset) (f : ArgumentFragment)
        (found : u.fragment? x.2 = some f) (g : ArgumentFragment)
        (found' : u.fragment? y.2 = some g) : f.Precedes g := by
      rw [← (each first).2.1, ← (each (List.mem_of_mem_tail second)).2.1] at le
      exact ScratchUnit.precedes found found' (settled y second) le
    cases read with
    | nil => exact .nil
    | cons x later =>
      obtain ⟨first, rest⟩ := List.pairwise_cons.mp ordered
      refine .cons (fun y among => precedes List.mem_cons_self among (first y among)) ?_
      exact rest.imp_of_mem fun {x y} among among' => precedes (List.mem_cons_of_mem _ among) among'

/-- Arguments of which the first has its type parameters ahead of its lifetimes, with comments, and
with an attribute close behind a semicolon. -/
theorem arguments_cut_apart_commented :
    let text := "/* s */ fn e<T, 'a>(t: &'a T) { f!() } use a::*;#[b] enum C {}".toList
    stripPreamble text = codeOf text ∧
      (∀ items, parseFile (codeOf text) = .ok items →
        ∀ i ∈ items.tail, i.head.displaced = false) ∧
      ∃ fragments, (parseArguments text).result = .ok fragments ∧
        ∃ items, parseFile (codeOf text) = .ok items ∧
          List.Forall₂ (fun f i => f.IsOf text i) fragments items ∧
          fragments.Pairwise ArgumentFragment.Precedes := by
  intro text
  have same : stripPreamble text = codeOf text := rfl
  have behind : ∀ items, parseFile (codeOf text) = .ok items →
      ∀ i ∈ items.tail, i.head.displaced = false := by
    have checked : (parseFile (codeOf text)).toOption.all fun items =>
        items.tail.all fun i => !i.head.displaced := by
      decide +kernel
    intro items parsed i member
    rw [parsed] at checked
    simpa using List.all_eq_true.mp checked i member
  have given : (parseArguments text).result.toOption.isSome := by decide +kernel
  obtain ⟨fragments, accepted⟩ := Option.isSome_iff_exists.mp given
  have accepted := Attempt.of_toOption accepted
  exact ⟨same, behind, fragments, accepted, arguments_cut_apart same behind accepted⟩

/-- A type parameter that is written ahead of a lifetime is put behind it, so the item counts as
starting where the text starts: its fragment drags in the item before it. -/
theorem reordered_generics_drag_in :
    let text := "struct A; fn f<T, 'a>() {}".toList
    ∃ f g, (parseArguments text).result = .ok [f, g] ∧ ¬ f.Precedes g ∧ g.text = text ∧
      ∃ i j, parseFile (codeOf g.text) = .ok [i, j] := by
  intro text
  have checked : (parseArguments text).result = .ok
      [⟨"struct A;".toList, 0, 9⟩, ⟨text, 0, 26⟩] := by
    decide +kernel
  have count : (parseFile (codeOf text)).toOption.map List.length = some 2 := by
    decide +kernel
  obtain ⟨items, parsed, two⟩ := Option.map_eq_some_iff.mp count
  obtain ⟨i, j, rfl⟩ := List.length_eq_two.mp two
  exact ⟨_, _, checked, by decide, rfl, i, j, Attempt.of_toOption parsed⟩

end MacroExpansion
