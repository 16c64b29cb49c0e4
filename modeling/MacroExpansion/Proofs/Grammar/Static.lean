import MacroExpansion.Expansion.LazyStatic
import MacroExpansion.Proofs.Grammar.Alone
import MacroExpansion.Proofs.Grammar.Local

/-!
# Declarations without `ref`

The declaration of a lazily evaluated static is that of a static with one word more. Main statement:
without the word its tokens are an item, a static of its name and with its attributes.
-/
namespace MacroExpansion.Grammar

open TokenTree

variable {c d : Cursor} {r : Rules}

/-! ## The words ahead of the name -/

theorem of_keyword {word : String} (read : keyword word c = .ok ((), d)) :
    ∃ extent, c.rest = .ident word extent :: d.rest ∧ d.displaced = c.displaced := by
  obtain ⟨yes, read⟩ := of_unless read
  obtain ⟨t, _, first, given⟩ := of_bind read
  cases given
  rw [of_tree first] at yes ⊢
  cases t with
  | ident spelling extent =>
    obtain rfl : spelling = word := by simpa [Look.keyword] using yes
    exact ⟨extent, rfl, displaced_of_tree first⟩
  | _ => cases yes

theorem Advances.of_moves {α : Type} {p : Parser α} [moves : Moves p] : Advances p :=
  fun _ _ _ read => by
    obtain ⟨taken, took⟩ := moves.reads read
    exact ⟨taken, took.ahead.symm⟩

theorem of_keyword? {word : String} {seen : Bool} (read : keyword? word c = .ok (seen, d)) :
    seen = Look.keyword word c.rest ∧ (seen = false → d = c) := by
  obtain ⟨_, _, looked, later⟩ := of_bind read
  obtain ⟨rfl, rfl⟩ := of_peek looked
  split at later
  next yes =>
    obtain ⟨_, _, _, given⟩ := of_bind later
    cases given
    exact ⟨yes.symm, nofun⟩
  next no =>
    cases later
    exact ⟨(Bool.eq_false_iff.mpr no).symm, fun _ => rfl⟩

namespace Local

theorem about {look : Look} [AboutFirst look] : Local 1 (Grammar.peek look) :=
  .peek fun _ more positive => near_of_aboutFirst positive more

theorem keyword? (spelling : String) : Local 1 (keyword? spelling) := by
  refine .bind (k := 0) about (fun _ => .ite ?_ (.pure false)) fun _ => .of_advances .of_moves
  exact .tree_bind (fun _ => .pure true) (fun _ => .of_advances (.pure true)) fun _ _ _ => rfl

theorem pubScope? : Local 1 pubScope? := by
  refine .bind (k := 0) about (fun _ => .ite (.trees 1) ?_) fun _ => .of_advances .of_moves
  exact .bind (k := 0) about (fun _ => .ite .delimited (.pure ())) fun _ => .of_advances .of_moves

end Local

theorem eq_of_alike_ident {spelling : String} {extent : Extent} {u : TokenTree}
    (alike : Alike (.ident spelling extent) u) : ∃ own, u = .ident spelling own := by
  cases u <;> cases alike
  exact ⟨_, rfl⟩

theorem of_keyword_cons {spelling : String} {t : TokenTree} {ts : List TokenTree}
    (yes : Look.keyword spelling (t :: ts) = true) : ∃ extent, t = .ident spelling extent := by
  cases t with
  | ident word extent =>
    obtain rfl : word = spelling := by simpa [Look.keyword] using yes
    exact ⟨extent, rfl⟩
  | _ => cases yes

/-- What may be ahead of `static` is no visibility unless it starts with `pub` or is `crate`. -/
theorem visibility?_of_closed {static : Extent} {rest : List TokenTree}
    (closed : keyword? "pub" c = .ok (false, c))
    (ahead : c.rest = .ident "static" static :: rest) : visibility? c = .ok (false, c) := by
  have looked : peek (.butNot (.keyword "crate") (.second (.symbol "::"))) c = .ok (false, c) := by
    rw [peek, ahead]
    rfl
  rw [visibility?, bind_ok closed]
  exact bind_ok looked

theorem visibility?_of_crate {crate static : Extent} {rest : List TokenTree}
    (closed : keyword? "pub" c = .ok (false, c))
    (ahead : c.rest = .ident "crate" crate :: .ident "static" static :: rest) :
    visibility? c = .ok (true, ⟨.ident "static" static :: rest, c.displaced, some crate⟩) := by
  have looked : peek (.butNot (.keyword "crate") (.second (.symbol "::"))) c = .ok (true, c) := by
    rw [peek, ahead]
    rfl
  have one : trees 1 c = .ok ((), ⟨.ident "static" static :: rest, c.displaced, some crate⟩) := by
    rw [trees, bind_ok (show tree c = .ok (.ident "crate" crate, _) by rw [tree, ahead])]
    rfl
  rw [visibility?, bind_ok closed]
  exact (bind_ok looked).trans (bind_ok one)

/-- The visibility ahead of `static` shows in the tokens up to it. -/
theorem visibility?_moved {less more : List TokenTree} {c' e : Cursor} {visible : Bool}
    (meets : Meets less more c c') (read : visibility? c' = .ok (visible, e))
    {static : Extent} (ahead : e.rest = .ident "static" static :: more) :
    e.displaced = c'.displaced ∧ ∃ d, visibility? c = .ok (visible, d) ∧ Meets less more d e := by
  have left : more.length + 1 ≤ e.rest.length := by rw [ahead, List.length_cons]
  obtain ⟨pub, mid, asked, later⟩ := of_bind read
  have fewer : e.rest.length ≤ mid.rest.length := (Advances.of_moves _ _ _ later).length_le
  obtain ⟨kept, past, asked', meets'⟩ :=
    Local.keyword? "pub" _ _ _ _ _ _ meets asked (left.trans fewer)
  cases pub with
  | true =>
    obtain ⟨_, _, scope, given⟩ := of_bind later
    cases given
    obtain ⟨kept', d, scope', meets⟩ := Local.pubScope? _ _ _ _ _ _ meets' scope left
    exact ⟨kept'.trans kept, d, (bind_ok asked').trans (bind_ok scope'), meets⟩
  | false =>
    obtain rfl := (of_keyword? asked).2 rfl
    obtain rfl := (of_keyword? asked').2 rfl
    obtain ⟨seen, _, looked, later⟩ := of_bind later
    obtain ⟨rfl, rfl⟩ := of_peek looked
    split at later
    next crate =>
      obtain ⟨_, _, one, given⟩ := of_bind later
      cases given
      obtain ⟨t, _, first, given⟩ := of_bind one
      cases given
      obtain ⟨rest, displaced, last⟩ := e
      obtain rfl : rest = _ := ahead
      have ahead := of_tree first
      rw [ahead] at crate
      obtain ⟨place, rfl⟩ := of_keyword_cons (And.left (by simpa [Look.butNot] using crate))
      obtain ⟨u, later, here, alike, behind⟩ := meets.cons ahead (by simp)
      obtain ⟨place', rfl⟩ := eq_of_alike_ident alike
      obtain ⟨v, rfl, alike⟩ := (behind false none false none).last rfl
      obtain ⟨static', rfl⟩ := eq_of_alike_ident alike
      exact ⟨displaced_of_tree first, _, visibility?_of_crate asked' here, behind _ _ _ _⟩
    next other =>
      cases later
      obtain ⟨v, here, alike⟩ := meets.last ahead
      obtain ⟨static', rfl⟩ := eq_of_alike_ident alike
      exact ⟨rfl, _, visibility?_of_closed asked' here, meets⟩

/-! ## The static -/

theorem itemForm_of_static {visible : Bool} {static : Extent} {rest : List TokenTree}
    (visibility : visibility? c = .ok (visible, d))
    (first : d.rest = .ident "static" static :: rest) : itemForm c = .ok (.static, c) := by
  have asked (word : String) {seen : Bool} (answer : ("static" == word) = seen) :
      peek (.keyword word) d = .ok (seen, d) := by
    rw [peek, first, Look.keyword, answer]
  have other (word : String) (no : ("static" == word) = false) :
      keyword? word d = .ok (false, d) := by
    rw [keyword?, bind_ok (asked word no)]
    rfl
  have convention : callingConvention? d = .ok ((), d) := by
    rw [callingConvention?, bind_ok (asked _ rfl)]
    rfl
  have noFunction : peek (.keyword "fn") d = .ok (false, d) := asked _ rfl
  have noUse : peek (.keyword "use") d = .ok (false, d) := asked _ rfl
  have isStatic : peek (.keyword "static") d = .ok (true, d) := asked _ rfl
  have noSignature : signatureAhead d = .ok (false, d) := by
    unfold signatureAhead ahead
    simp only [bind_ok (other "const" rfl), bind_ok (other "async" rfl),
      bind_ok (other "unsafe" rfl), bind_ok convention, noFunction]
  unfold itemForm ahead
  simp only [bind_ok visibility, bind_ok noSignature, Bool.false_eq_true, ↓reduceIte,
    bind_ok (other "extern" rfl), bind_ok noUse, bind_ok isStatic]
  rfl

/-- What follows `ref` in the declaration of a lazily evaluated static; gives the name. -/
def declarationTail (r : Rules) : Parser String := do
  let spelling ← name
  symbol ":"
  let _ ← r.type true
  symbol "="
  let _ ← r.expression true
  symbol ";"
  return spelling

theorem symbol?_of_symbol {text : String} (read : symbol text c = .ok ((), d)) :
    symbol? text c = .ok (true, d) := by
  obtain ⟨yes, read⟩ := of_unless read
  rw [symbol?, bind_ok (show peek (Look.symbol text) c = .ok (true, c) by rw [peek, yes])]
  exact bind_ok read

/-- A name is no reserved word. -/
theorem keyword_of_name {ts : List TokenTree} {word : String} (named : Look.name ts = true)
    (isReserved : reserved.contains word = true) : Look.keyword word ts = false := by
  unfold Look.name at named
  split at named
  next spelling _ _ =>
    refine beq_false_of_ne ?_
    rintro rfl
    rw [isReserved] at named
    cases named
  next => cases named

theorem equals_of_colon {ts : List TokenTree} (colon : Look.symbol ":" ts = true) :
    Look.symbol "=" ts = false := by
  cases ts with
  | nil => cases colon
  | cons t ts =>
    cases t with
    | punct char joint extent =>
      obtain rfl : ':' = char := beq_iff_eq.mp colon
      rfl
    | _ => cases colon

theorem staticItem_of_tail {visible : Bool} {spelling : String} {static : Extent} {past : Cursor}
    {rest : List TokenTree} (visibility : visibility? c = .ok (visible, past))
    (ahead : past.rest = .ident "static" static :: rest)
    (tail : declarationTail r ⟨rest, past.displaced, some static⟩ = .ok (spelling, d)) :
    staticItem r c = .ok (.leaf [] .static (some spelling), d) := by
  obtain ⟨_, afterName, nameRead, tail⟩ := of_bind tail
  obtain ⟨_, afterColon, colon, tail⟩ := of_bind tail
  obtain ⟨_, afterType, type, tail⟩ := of_bind tail
  obtain ⟨_, afterEquals, equals, tail⟩ := of_bind tail
  obtain ⟨_, afterValue, value, tail⟩ := of_bind tail
  obtain ⟨_, _, semicolon, given⟩ := of_bind tail
  cases given
  have word : keyword "static" past = .ok ((), ⟨rest, past.displaced, some static⟩) := by
    have yes : peek (Look.keyword "static") past = .ok (true, past) := by
      rw [peek, ahead]
      rfl
    rw [keyword, bind_ok yes]
    exact bind_ok (show tree past = .ok (.ident "static" static, _) by rw [tree, ahead]; rfl)
  have unmoved : keyword? "mut" ⟨rest, past.displaced, some static⟩ =
      .ok (false, ⟨rest, past.displaced, some static⟩) := by
    rw [keyword?, bind_ok (show peek _ _ = .ok (false, _) by
      rw [peek, keyword_of_name (of_unless nameRead).1 (by decide)])]
    rfl
  have valued : symbol? "=" afterName = .ok (false, afterName) := by
    rw [symbol?, bind_ok (show peek _ _ = .ok (false, _) by
      rw [peek, equals_of_colon (of_unless colon).1])]
    rfl
  have typed : typedValue? r afterName = .ok (true, d) :=
    (bind_ok colon).trans ((bind_ok type).trans ((bind_ok (symbol?_of_symbol equals)).trans
      ((bind_ok value).trans (bind_ok semicolon))))
  rw [staticItem, bind_ok visibility, bind_ok word, bind_ok unmoved, bind_ok nameRead]
  exact (bind_ok valued).trans (bind_ok typed)

/-! ## The whole declaration -/

/-- The tokens around `ref` in a declaration: attributes and what leads up to `static`, and a name
with what follows it up to a semicolon. -/
structure Declares (front back : List TokenTree) (mark : Extent) (names : List String)
    (spelling : String) : Prop where
  attributes : names = outerPaths (front ++ .ident "ref" mark :: back)
  static : ∃ early place, front = early ++ [.ident "static" place]
  name : ∃ place later, back = .ident spelling place :: later
  named : spelling ≠ "_"
  semicolon : ∃ inner joint extent, back = inner ++ [.punct ';' joint extent]

theorem of_declarationTail [Rules.Tracked (fun _ => False) r r] {spelling : String}
    (read : declarationTail r c = .ok (spelling, d)) (whole : d.rest = []) :
    (∃ place later, c.rest = .ident spelling place :: later) ∧ spelling ≠ "_" ∧
      ∃ inner joint extent, c.rest = inner ++ [.punct ';' joint extent] := by
  obtain ⟨_, _, nameRead, read⟩ := of_bind read
  have between : Advances (do
      symbol ":"
      let _ ← r.type true
      symbol "="
      let _ ← r.expression true) := by
    have moves : Moves (r.expression true) := (Tracks.expression true).weaken fun _ _ _ => trivial
    exact .bind (.symbol _) fun _ => .bind .of_moves fun _ => .bind (.symbol _) fun _ =>
      .bind .of_moves fun _ => .pure ()
  obtain ⟨_, _, colon, read⟩ := of_bind read
  obtain ⟨_, _, type, read⟩ := of_bind read
  obtain ⟨_, _, equals, read⟩ := of_bind read
  obtain ⟨_, past, value, read⟩ := of_bind read
  obtain ⟨_, _, ended, given⟩ := of_bind read
  cases given
  obtain ⟨place, first⟩ := of_word (of_unless nameRead).2
  obtain ⟨⟨joint, extent, last⟩, -⟩ := of_mark rfl ended
  obtain ⟨inner, behind⟩ := between _ _ _ ((bind_ok colon).trans ((bind_ok type).trans
    ((bind_ok equals).trans (bind_ok value))))
  rw [last, whole] at behind
  refine ⟨⟨place, _, first⟩, ?_, .ident spelling place :: inner, joint, extent, ?_⟩
  · rintro rfl
    have other := keyword_of_name (of_unless nameRead).1 (show reserved.contains "_" by decide)
    rw [first] at other
    cases other
  · rw [first, ← behind]
    rfl

theorem parts_of_lazyStatic {mark : Extent} (read : lazyStatic r c = .ok (mark, d)) :
    ∃ (names : List String) (mid : Cursor) (visible : Bool) (past : Cursor) (static : Extent)
      (back : Cursor) (spelling : String),
      outerAttributes c = .ok (names, mid) ∧ visibility? mid = .ok (visible, past) ∧
      past.rest = .ident "static" static :: .ident "ref" mark :: back.rest ∧
      back.displaced = past.displaced ∧ declarationTail r back = .ok (spelling, d) := by
  obtain ⟨names, mid, attributes, read⟩ := of_bind read
  obtain ⟨visible, past, visibility, read⟩ := of_bind read
  obtain ⟨_, inner, first, read⟩ := of_bind read
  obtain ⟨⟨_, place⟩, back, told, read⟩ := of_bind read
  obtain ⟨spelling, named, nameRead, read⟩ := of_bind read
  obtain ⟨_, afterColon, colon, read⟩ := of_bind read
  obtain ⟨_, afterType, type, read⟩ := of_bind read
  obtain ⟨_, afterEquals, equals, read⟩ := of_bind read
  obtain ⟨_, afterValue, value, read⟩ := of_bind read
  obtain ⟨_, _, semicolon, given⟩ := of_bind read
  cases given
  obtain ⟨static, ahead, kept⟩ := of_keyword first
  obtain ⟨ref, ahead', kept'⟩ := of_keyword (of_placed_ok told)
  have moves : Moves (keyword "ref") := inferInstance
  obtain ⟨taken, took⟩ := moves.reads (of_placed_ok told)
  obtain rfl : taken = [.ident "ref" ref] := by
    rw [took.ahead] at ahead'
    exact (List.append_left_inj back.rest).mp ahead'
  obtain rfl : mark = ref := of_placed told took (List.cons_ne_nil _ _)
  refine ⟨names, mid, visible, past, static, back, spelling, attributes, visibility, ?_, ?_, ?_⟩
  · rw [ahead, ahead']
  · rw [kept', kept]
  · exact (bind_ok nameRead).trans ((bind_ok colon).trans
      ((bind_ok type).trans ((bind_ok equals).trans
      ((bind_ok value).trans (bind_ok semicolon)))))

theorem placed_ok {α : Type} {p : Parser α} {a : α} (read : p c = .ok (a, d)) :
    ∃ extent, placed p c = .ok ((a, extent), d) := by
  let start := (c.rest.head?.map TokenTree.extent).getD ⟨.origin, .origin⟩
  refine ⟨⟨start.start, (d.last.getD start).stop⟩, ?_⟩
  exact (bind_ok rfl).trans (bind_ok read)

theorem item_of_static {names : List String} {mid : Cursor} {visible : Bool}
    {past : Cursor} {static : Extent} {rest : List TokenTree} {spelling : String}
    (attributes : outerAttributes ⟨c.rest, false, c.last⟩ = .ok (names, mid))
    (visibility : visibility? mid = .ok (visible, past))
    (ahead : past.rest = .ident "static" static :: rest)
    (tail : declarationTail r ⟨rest, past.displaced, some static⟩ = .ok (spelling, d)) :
    ∃ extent, item r c =
      .ok (.leaf ⟨names, extent, d.displaced⟩ .static (Item.declaredName spelling), d) := by
  have body : itemBody r mid = .ok (.leaf [] .static (some spelling), d) := by
    rw [itemBody, bind_ok (itemForm_of_static visibility ahead)]
    exact staticItem_of_tail visibility ahead tail
  have content : (do
      let attributes ← outerAttributes
      return (attributes, ← itemBody r)) ⟨c.rest, false, c.last⟩ =
        .ok ((names, .leaf [] .static (some spelling)), d) := by
    rw [bind_ok attributes, bind_ok body]
    rfl
  obtain ⟨extent, told⟩ := placed_ok content
  refine ⟨extent, ?_⟩
  rw [← List.append_nil names]
  exact (bind_ok rfl).trans (bind_ok told)

/-- What is read up to `static` notes nothing. -/
theorem displaced_of_visibility {names : List String} {mid past : Cursor} {visible : Bool}
    {static : Extent} {rest : List TokenTree} (attributes : outerAttributes c = .ok (names, mid))
    (visibility : visibility? mid = .ok (visible, past))
    (ahead : past.rest = .ident "static" static :: rest) : past.displaced = c.displaced := by
  obtain ⟨early, between⟩ := Advances.of_moves _ _ _ visibility
  have self : Meets rest rest mid mid := by
    have parts : mid.rest = (early ++ [.ident "static" static]) ++ rest := by
      rw [← between, ahead, List.append_cons]
    exact ⟨_, _, parts, parts, rfl⟩
  have positive : ([] : List TokenTree).length + 1 ≤ mid.rest.length := by
    rw [← between, ahead, List.length_append, List.length_cons, List.length_nil]
    omega
  have selfFirst : Meets [] [] c c :=
    ⟨c.rest, c.rest, (List.append_nil _).symm, (List.append_nil _).symm, rfl⟩
  have keptFirst := (Local.outerAttributes _ _ _ _ _ _ selfFirst attributes positive).1
  exact (visibility?_moved self visibility ahead).1.trans keptFirst

theorem tracks_declarationTail [Rules.Tracked (fun _ => False) r r] :
    Tracks (fun _ => False) false Eq (declarationTail r) (declarationTail r) := by
  unfold declarationTail
  exact .seq fun _ => .seq fun _ => .seq fun _ => .seq fun _ =>
    (Tracks.expression true).bind fun _ _ _ => .seq fun _ => .pure_of rfl

/-- Without `ref` the tokens of a declaration are an item: a static of its name, with its
attributes. -/
theorem item_of_lazyStatic [Rules.Tracked (fun _ => False) r r] {ts : List TokenTree}
    {mark : Extent} (read : lazyStatic r ⟨ts, false, none⟩ = .ok (mark, d)) (whole : d.rest = []) :
    ∃ front back names spelling, ts = front ++ .ident "ref" mark :: back ∧
      Declares front back mark names spelling ∧ ∃ extent displaced e,
        item r ⟨front ++ back, false, none⟩ =
          .ok (.leaf ⟨names, extent, displaced⟩ .static (Item.declaredName spelling), e) ∧
        e.rest = [] := by
  obtain ⟨names, mid, visible, past, static, back, spelling, attributes, visibility, ahead, kept,
    tail⟩ := parts_of_lazyStatic read
  obtain ⟨early, between⟩ := Advances.of_moves _ _ _ visibility
  obtain ⟨first, before⟩ := Advances.of_moves _ _ _ attributes
  obtain rfl : ts = (first ++ early ++ [.ident "static" static]) ++
      .ident "ref" mark :: back.rest := by
    refine Eq.trans before.symm ?_
    rw [← between, ahead]
    simp
  obtain ⟨starts, named, ended⟩ := of_declarationTail tail whole
  obtain ⟨unmarked, _, parts, paths⟩ := outer_of_outerAttributes attributes
  have written := (paths _ unmarked).symm
  rw [← parts] at written
  refine ⟨_, back.rest, names, spelling, rfl,
    ⟨written, ⟨_, static, rfl⟩, starts, named, ended⟩, ?_⟩
  generalize first ++ early ++ [.ident "static" static] = front at *
  have room : (.ident "ref" mark :: back.rest).length + 1 ≤ past.rest.length := by
    rw [ahead, List.length_cons, List.length_cons, List.length_cons]
  have fewer := (Advances.of_moves _ _ _ visibility).length_le
  have meets : Meets back.rest (.ident "ref" mark :: back.rest) ⟨front ++ back.rest, false, none⟩
      ⟨front ++ .ident "ref" mark :: back.rest, false, none⟩ := ⟨front, front, rfl, rfl, rfl⟩
  obtain ⟨-, mid', attributes', meets⟩ :=
    Local.outerAttributes _ _ _ _ _ _ meets attributes (room.trans fewer)
  obtain ⟨-, past', visibility', meets⟩ := visibility?_moved meets visibility ahead
  obtain ⟨t, ahead', alike⟩ := meets.last ahead
  obtain ⟨static', rfl⟩ := eq_of_alike_ident alike
  have placed : back.displaced = past'.displaced := by
    rw [kept, displaced_of_visibility attributes visibility ahead,
      displaced_of_visibility attributes' visibility' ahead']
  have sees : Sees [] [] back ⟨back.rest, past'.displaced, some static'⟩ := by
    rw [← placed]
    exact .of_moved rfl back.displaced back.last _
  obtain ⟨_, e, tail', rfl, sees⟩ := tracks_declarationTail.carries sees tail (.nothing _ _)
  obtain ⟨extent, given⟩ := item_of_static (c := ⟨front ++ back.rest, false, none⟩) attributes'
    visibility' ahead' tail'
  exact ⟨extent, _, e, given, sees.empty whole⟩

/-- The tokens of a declaration but for `ref` start with no inner attribute, and are a file of one
static, wherever they stand. -/
theorem fileOf_lazyStatic {ts : List TokenTree} {mark : Extent}
    (read : parseAll (lazyStatic (rulesFor ts)) ts = .ok mark) :
    ∃ front back names spelling, ts = front ++ .ident "ref" mark :: back ∧
      Declares front back mark names spelling ∧ Look.innerAttribute (front ++ back) = false ∧
      ∃ extent displaced, ∀ us, seenAll us = seenAll (front ++ back) →
          FileOf (.leaf ⟨names, extent, displaced⟩ .static (Item.declaredName spelling)) us := by
  obtain ⟨d, read, whole⟩ := of_parseAll read
  obtain ⟨n, deep, nested⟩ := rulesFor_succ ts
  have tracked : Rules.Tracked (fun _ => False) (rules (n + 1)) (rules (n + 1)) :=
    tracked_rules (Nat.le_refl _)
  rw [deep] at read
  obtain ⟨front, back, names, spelling, rfl, declares, extent, displaced, e, given, empty⟩ :=
    item_of_lazyStatic read whole
  refine ⟨front, back, names, spelling, rfl, declares, bare_of_item given, extent, displaced,
    fun us same => ?_⟩
  have closes : Closes (fun _ => False) AlikeItems (item (rules (n + 1))) (item (rules (n + 1))) :=
    closes_item _ _
  obtain ⟨taken, took, closed⟩ := closes.reads given
  obtain rfl : taken = front ++ back := by
    have ahead := took.ahead
    rw [empty, List.append_nil] at ahead
    exact ahead.symm
  have lighter :
      weightOfAll (front ++ back) ≤ weightOfAll (front ++ .ident "ref" mark :: back) := by
    rw [weightOfAll_append, weightOfAll_append, weightOfAll]
    omega
  have enough : 3 * (weightOfAll (front ++ back) + 1) ≤ n + 1 + 1 := by
    rw [usesPerToken] at nested
    omega
  exact fileOf_item enough given took closed same

end MacroExpansion.Grammar
