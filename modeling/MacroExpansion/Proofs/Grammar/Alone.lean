import MacroExpansion.Proofs.Grammar.Attributes
import MacroExpansion.Proofs.Grammar.Depth.Rules

/-!
# Items as files of their own

An item hangs on nothing but its own tokens: it goes on into none that follow it, and none of them
belongs to the file as a whole. Main statement: the tokens of an item of a file are a file of their
own, with an item of the same kind, name and attributes, and so are those of the first item with
what stands before it.
-/
namespace MacroExpansion.Grammar

open TokenTree

variable {c d : Cursor} {taken : List TokenTree} {i : Item}

theorem bare_of_item {r : Rules} (read : item r c = .ok (i, d)) :
    Look.innerAttribute c.rest = false := by
  obtain ⟨_, start, noted, later⟩ := of_bind read
  obtain ⟨⟨⟨attributes, body⟩, extent⟩, _, told, -⟩ := of_bind later
  cases noted
  obtain ⟨_, _, outer, -⟩ := of_bind (of_placed_ok told)
  exact bare_of_outerAttributes (c := ⟨c.rest, false, c.last⟩) outer

/-- An item is read of its own tokens alone, wherever they stand. -/
theorem run_of_item {n : Nat} (read : (rules (n + 1)).item c = .ok (i, d)) (took : Took taken c d)
    (closed : Closed taken) {c' : Cursor} (sees : Sees d.rest [] c c') :
    ∃ own j e, ItemRun (rules (n + 1)).item c' [(own, j)] e ∧ e.rest = [] ∧ AlikeItems i j := by
  have nested : Rules.Tracked (fun _ => False) (rules n) (rules n) := tracked_rules (Nat.le_refl n)
  have closes : Closes (fun _ => False) AlikeItems (rules (n + 1)).item (rules (n + 1)).item :=
    closes_item (rules n) (rules n)
  have held : Held d.rest [] c d :=
    ⟨⟨taken, took.ahead, .inr ⟨rfl, closed⟩, .inl rfl⟩, [], rfl⟩
  obtain ⟨j, e, read', alike, left⟩ := closes.carries sees read held
  obtain ⟨own, took', closed'⟩ := closes.reads read'
  have empty : e.rest = [] := by
    obtain ⟨ahead, moved, here, there, nothing⟩ := left.ahead
    obtain rfl : ahead = [] := by simpa using here
    rw [there, seenAll_eq_nil nothing, List.append_nil]
  exact ⟨own, j, e, .next read' took' closed' (.done e), empty, alike⟩

/-- Some tokens are a file with a single item, which is like another. -/
def FileOf (i : Item) (ts : List TokenTree) : Prop :=
  (∃ names c, innerAttributes ⟨ts, false, none⟩ = .ok (names, c)) ∧
    ∃ j, parseAll (fileItems (rulesFor ts)) ts = .ok [j] ∧ AlikeItems i j

theorem fileOf_run {n : Nat} {ts own : List TokenTree} {j : Item} {names : List String}
    (deep : 3 * (weightOfAll ts + 1) ≤ n + 1)
    (inner : innerAttributes ⟨ts, false, none⟩ = .ok (names, c))
    (run : ItemRun (rules (n + 1)).item c [(own, j)] d) (empty : d.rest = [])
    (alike : AlikeItems i j) : FileOf i ts := by
  have whole := file_of_run inner run empty
  rw [file_of_deep deep] at whole
  exact ⟨⟨names, c, inner⟩, j, whole, alike⟩

theorem weightOfAll_seenAll (ts : List TokenTree) : weightOfAll (seenAll ts) = weightOfAll ts := by
  have one (t : TokenTree) : t.seen.weight = t.weight := by
    cases t with
    | group d content extent => exact weight_unplaced (.group d content extent)
    | _ => rfl
  induction ts with
  | nil => rfl
  | cons t ts ih => rw [seenAll, List.map_cons, weightOfAll, one, ← seenAll, ih, weightOfAll]

theorem weight_of_seenAll {ts us : List TokenTree} (same : seenAll us = seenAll ts) :
    weightOfAll us = weightOfAll ts := by
  rw [← weightOfAll_seenAll us, same, weightOfAll_seenAll]

/-- The tokens of an item are a file of their own, wherever they stand. -/
theorem fileOf_item {n : Nat} (deep : 3 * (weightOfAll taken + 1) ≤ n + 1)
    (read : (rules (n + 1)).item c = .ok (i, d)) (took : Took taken c d) (closed : Closed taken)
    {own : List TokenTree} (same : seenAll own = seenAll taken) : FileOf i own := by
  have sees : Sees d.rest [] c ⟨own, c.displaced, none⟩ :=
    ⟨⟨taken, own, took.ahead, (List.append_nil own).symm, same⟩, rfl⟩
  obtain ⟨_, j, e, run, empty, alike⟩ := run_of_item read took closed sees
  have bare : Look.innerAttribute own = false := by
    cases run with
    | next read' _ _ _ => exact bare_of_item read'
  obtain ⟨e', run, left⟩ := run.of_noted false
  have inner : innerAttributes ⟨own, false, none⟩ = .ok ([], ⟨own, false, none⟩) :=
    innerAttributes_of_none bare
  exact fileOf_run (weight_of_seenAll same ▸ deep) inner run (left.trans empty) alike

/-- The first item of a file is one with the attributes of the file as well. -/
theorem fileOf_first {n : Nat} {ts front : List TokenTree} {names : List String}
    (deep : 3 * (weightOfAll (front ++ taken) + 1) ≤ n + 1)
    (inner : innerAttributes ⟨ts, false, none⟩ = .ok (names, c)) (ahead : ts = front ++ c.rest)
    (read : (rules (n + 1)).item c = .ok (i, d)) (took : Took taken c d) (closed : Closed taken)
    {own : List TokenTree} (same : seenAll own = seenAll (front ++ taken)) : FileOf i own := by
  have inert : Tracks (fun _ => True) true Eq innerAttributes innerAttributes := inferInstance
  have sees : Sees d.rest [] ⟨ts, false, none⟩ ⟨own, false, none⟩ := by
    refine ⟨⟨front ++ taken, own, ?_, (List.append_nil own).symm, same⟩, rfl⟩
    rw [ahead, took.ahead, List.append_assoc]
  have clear : Clear true d.rest [] c := ⟨taken, took.ahead, .inr ⟨rfl, closed⟩, .inl rfl⟩
  obtain ⟨names', c', inner', _, sees⟩ := inert.carries sees inner clear
  obtain ⟨_, j, e, run, empty, alike⟩ := run_of_item read took closed sees
  exact fileOf_run (weight_of_seenAll same ▸ deep) inner' run empty alike

end MacroExpansion.Grammar
