import MacroExpansion.Proofs.Grammar.Depth
import MacroExpansion.Proofs.Grammar.Items
import MacroExpansion.Proofs.Token.Join

/-!
# Files that are joined

The items of a file end with it, each with braces or a semicolon of its own. Main statement: a file
with items, and after a blank line another file that has no inner attributes, have as one file the
items of the one and then those of the other, each where it stood in its own file.
-/
namespace MacroExpansion

/-- An item of the same kind, name and attributes, told where it stands in a text that starts in
another place. -/
structure Item.Moved (here there : Nat) (i j : Item) : Prop where
  alike : Grammar.AlikeItems i j
  extent : i.describe.isSome → i.head.extent.Moved here there j.head.extent

end MacroExpansion

namespace MacroExpansion.Grammar

open TokenTree

/-- An attribute of what it stands in, and not of what follows it. -/
def Look.innerAttribute : Look :=
  both (symbol "#") (second (symbol "!"))

variable {here there : Nat}

/-! ## How deep rules nest -/

/-- Rules for some tokens are a step of rules. -/
theorem rulesFor_succ (ts : List TokenTree) :
    ∃ n, rulesFor ts = rules (n + 1) ∧ n + 1 = usesPerToken * (weightOfAll ts + 2) := by
  have positive : 0 < usesPerToken * (weightOfAll ts + 2) := Nat.mul_pos (by decide) (by omega)
  obtain ⟨n, same⟩ := Nat.exists_eq_add_one_of_ne_zero (Nat.ne_of_gt positive)
  exact ⟨n, by rw [rulesFor, same], same.symm⟩

/-! ## Where the items of a run stand -/

/-- Lists that correspond to each other start with what corresponds to each other. -/
theorem head?_of_forall₂ {α β : Type} {R : α → β → Prop} {xs : List α} {ys : List β}
    (h : List.Forall₂ R xs ys) (nonempty : xs ≠ []) :
    ∃ x y, xs.head? = some x ∧ ys.head? = some y ∧ R x y := by
  cases h with
  | nil => exact absurd rfl nonempty
  | cons first _ => exact ⟨_, _, rfl, rfl, first⟩

theorem stretch_moved {ts us : List TokenTree} (nonempty : ts ≠ [])
    (moved : List.Forall₂ (TokenTree.Moved here there) ts us) :
    (stretch ts).Moved here there (stretch us) := by
  obtain ⟨t, u, first, first', start⟩ := head?_of_forall₂ moved nonempty
  obtain ⟨v, w, last, last', stop⟩ :=
    head?_of_forall₂ (List.rel_reverse moved) (List.reverse_ne_nil_iff.mpr nonempty)
  rw [List.head?_reverse] at last last'
  unfold stretch
  rw [first, first', last, last']
  exact ⟨start.extent.start, stop.extent.stop⟩

/-- Runs that are in step find their items where their tokens stand. -/
theorem moved_of_runs {r r' : Rules} {c c' d d' : Cursor}
    {read read' : List (List TokenTree × Item)} (run : ItemRun (item r) c read d)
    (run' : ItemRun (item r') c' read' d') (same : List.Forall₂ InStep read read')
    (moved : List.Forall₂ (TokenTree.Moved here there) (read.map Prod.fst).flatten
      (read'.map Prod.fst).flatten) :
    List.Forall₂ (Item.Moved here there) (read.map Prod.snd) (read'.map Prod.snd) := by
  induction run generalizing c' read' with
  | done =>
    cases same
    exact .nil
  | @next c d e taken i later one took closed run ih =>
    obtain ⟨⟨taken', i'⟩, later', ⟨alike, long⟩, sameLater, rfl⟩ :=
      List.forall₂_cons_left_iff.mp same
    cases run' with
    | next one' took' closed' run' =>
      obtain ⟨front, back, whole, first, behind⟩ := of_forall₂_append moved
      have parts : front = taken' ∧ back = (later'.map Prod.fst).flatten :=
        List.append_inj whole.symm (first.length_eq.symm.trans long.symm)
      obtain ⟨rfl, rfl⟩ := parts
      refine .cons ⟨alike, fun _ => ?_⟩ (ih run' sameLater behind)
      rw [extent_of_item one took closed, extent_of_item one' took' closed']
      exact stretch_moved closed.not_nil first

/-- An item of a run stops where a token does. -/
theorem ItemRun.stop_of_mem {r : Rules} {c d : Cursor} {read : List (List TokenTree × Item)}
    (run : ItemRun (item r) c read d) {i : Item} (member : i ∈ read.map Prod.snd) :
    ∃ t ∈ (read.map Prod.fst).flatten, t.extent.stop = i.head.extent.stop := by
  induction run with
  | done => cases member
  | @next c d e taken j later one took closed run ih =>
    rw [List.map_cons, List.flatten_cons]
    rcases List.mem_cons.mp member with rfl | among
    · have last := List.getLast?_eq_some_getLast closed.not_nil
      refine ⟨taken.getLast closed.not_nil, List.mem_append_left _ (List.getLast_mem _), ?_⟩
      rw [extent_of_item one took closed, stretch, last]
      rfl
    · obtain ⟨t, behind, stop⟩ := ih among
      exact ⟨t, List.mem_append_right _ behind, stop⟩

/-! ## Files -/

/-- What was noted before an item does not count. -/
theorem ItemRun.of_noted {r : Rules} {c d : Cursor} {read : List (List TokenTree × Item)}
    (run : ItemRun (item r) c read d) (displaced : Bool) :
    ∃ d', ItemRun (item r) { c with displaced } read d' ∧ d'.rest = d.rest := by
  cases run with
  | done => exact ⟨_, .done _, rfl⟩
  | next one took closed later => exact ⟨d, .next one ⟨took.ahead, took.last⟩ closed later, rfl⟩

/-- The tokens of some items end with a brace or a semicolon. -/
theorem ItemRun.closed {p : Parser Item} {c d : Cursor} {read : List (List TokenTree × Item)}
    (run : ItemRun p c read d) (nonempty : read ≠ []) : Closed (read.map Prod.fst).flatten := by
  induction run with
  | done => exact absurd rfl nonempty
  | @next c d e taken i later _ _ closed run ih =>
    cases later with
    | nil => simpa using closed
    | cons x later =>
      rw [List.map_cons, List.flatten_cons]
      exact (ih (List.cons_ne_nil x later)).before taken

/-- A file is its inner attributes and then a run of items that leaves nothing. -/
theorem run_of_file {n : Nat} {ts : List TokenTree} {items : List Item}
    (h : parseAll (fileItems (rules (n + 1))) ts = .ok items) :
    ∃ attributes c read d, innerAttributes ⟨ts, false, none⟩ = .ok (attributes, c) ∧
      ItemRun (rules (n + 1)).item c read d ∧ items = read.map Prod.snd ∧ d.rest = [] := by
  obtain ⟨⟨_, d⟩, whole, given⟩ := Attempt.of_bind_ok h
  obtain ⟨attributes, c, inner, later⟩ := of_bind whole
  have nested : Rules.Tracked (fun _ => False) (rules n) (rules n) := tracked_rules (Nat.le_refl n)
  have closes : Closes (fun _ => False) AlikeItems (rules (n + 1)).item (rules (n + 1)).item :=
    closes_item (rules n) (rules n)
  obtain ⟨read, run, rfl, empty⟩ := run_of_untilEnd closes later
  obtain ⟨rest, displaced, last⟩ := d
  cases empty
  cases given
  exact ⟨attributes, c, read, _, inner, run, rfl, rfl⟩

theorem file_of_run {r : Rules} {ts : List TokenTree} {attributes : List String} {c d : Cursor}
    {read : List (List TokenTree × Item)}
    (inner : innerAttributes ⟨ts, false, none⟩ = .ok (attributes, c))
    (run : ItemRun r.item c read d)
    (empty : d.rest = []) : parseAll (fileItems r) ts = .ok (read.map Prod.snd) := by
  have whole : fileItems r ⟨ts, false, none⟩ = .ok (read.map Prod.snd, d) :=
    (bind_ok inner).trans (untilEnd_of_run run empty)
  obtain ⟨rest, displaced, last⟩ := d
  cases empty
  rw [parseAll, whole]
  rfl

/-- An item of a file stops where a token of it does. -/
theorem stop_of_mem_file {ts : List TokenTree} {items : List Item}
    (h : parseAll (fileItems (rulesFor ts)) ts = .ok items) {i : Item} (member : i ∈ items) :
    ∃ t ∈ ts, t.extent.stop = i.head.extent.stop := by
  obtain ⟨n, same, _⟩ := rulesFor_succ ts
  rw [same] at h
  obtain ⟨attributes, c, read, d, inner, run, rfl, _⟩ := run_of_file h
  obtain ⟨t, among, stop⟩ := run.stop_of_mem member
  have inert : Tracks (fun _ => True) true Eq innerAttributes innerAttributes := inferInstance
  obtain ⟨taken, took⟩ := inert.reads inner
  have parts : ts = taken ++ c.rest := took.ahead
  rw [parts, run.tokens]
  exact ⟨t, by simp [among], stop⟩

theorem rounds_eq {α : Type} (round : α → Parser (α × Bool)) (a : α) (c : Cursor) :
    rounds round a c = roundsWithin round (c.rest.length + 1) a c := rfl

/-- Where it is to stop, nothing is read. -/
theorem untilStop_stopped {α : Type} {stop : Look} {p : Parser α} {c : Cursor}
    (stops : stop c.rest = true) : untilStop stop p c = .ok ([], c) := by
  have looked : peek stop c = .ok (true, c) := by rw [peek, stops]
  have round : (do
      if ← peek stop then return (([] : List α), false)
      let a ← p
      return ([a], true) : Parser (List α × Bool)) c = .ok (([], false), c) := bind_ok looked
  have loop : rounds (fun (read : List α) => do
      if ← peek stop then return (read, false)
      let a ← p
      return (a :: read, true)) [] c = .ok ([], c) := by
    rw [rounds_eq, roundsWithin]
    exact bind_ok round
  exact bind_ok loop
theorem innerAttributes_of_none {c : Cursor} (bare : Look.innerAttribute c.rest = false) :
    innerAttributes c = .ok ([], c) :=
  untilStop_stopped (by rw [Look.innerAttribute, Look.both] at bare; rw [bare]; rfl)

/-- The items of a file are read in front of other tokens. -/
theorem file_leads {n l : Nat} (le : n ≤ l) {ts : List TokenTree} {items : List Item}
    (h : parseAll (fileItems (rules (n + 1))) ts = .ok items) (nonempty : items ≠ [])
    (more : List TokenTree) :
    ∃ attributes c read d, innerAttributes ⟨ts ++ more, false, none⟩ = .ok (attributes, c) ∧
      ItemRun (rules (l + 1)).item c read d ∧ d.rest = more ∧
      List.Forall₂ (Item.Moved 0 0) items (read.map Prod.snd) := by
  have inert : Tracks (fun _ => True) true Eq innerAttributes innerAttributes := inferInstance
  obtain ⟨attributes, c, read, d, inner, run, rfl, empty⟩ := run_of_file h
  obtain ⟨taken, took⟩ := inert.reads inner
  have parts : ts = taken ++ c.rest := took.ahead
  have tokens := run.tokens
  rw [empty, List.append_nil] at tokens
  have closed : Closed c.rest := by
    rw [tokens]
    exact run.closed fun unread => nonempty (by rw [unread]; rfl)
  have room : Room true more c.rest := .inr ⟨rfl, closed⟩
  have sees : Sees [] more ⟨ts, false, none⟩ ⟨ts ++ more, false, none⟩ :=
    ⟨⟨ts, ts, (List.append_nil ts).symm, rfl, rfl⟩, rfl⟩
  obtain ⟨attributes', c', inner', _, sees⟩ := inert.carries sees inner (.ahead room)
  obtain ⟨read', d', run', inStep, seesEnd⟩ := run.carries le sees room
  have left : d'.rest = more := by
    obtain ⟨own, moved, here, ahead, nothing⟩ := seesEnd.ahead
    obtain rfl : own = [] := by simpa [empty] using here
    rw [ahead, seenAll_eq_nil nothing, List.nil_append]
  -- the tokens are as many as before, and no others
  have same : (read'.map Prod.fst).flatten = (read.map Prod.fst).flatten := by
    obtain ⟨taken', took'⟩ := inert.reads inner'
    have whole : ts ++ more = taken' ++ c'.rest := took'.ahead
    have tokens' := run'.tokens
    have long := sees.length
    rw [left] at tokens'
    rw [tokens', tokens, List.length_append, List.length_nil, Nat.add_zero,
      Nat.add_right_cancel_iff] at long
    rw [tokens', ← List.append_assoc] at whole
    have front := List.append_cancel_right whole
    rw [parts, tokens] at front
    exact (List.append_inj_right' front long.symm).symm
  refine ⟨attributes', c', read', d', inner', run', left, moved_of_runs run run' inStep ?_⟩
  rw [same]
  exact List.forall₂_same.mpr fun t _ => ⟨rfl, rfl, rfl⟩

/-- The items of a file without inner attributes are read behind what was read before. -/
theorem file_follows {n l : Nat} (le : n ≤ l) {ts : List TokenTree} {items : List Item}
    (h : parseAll (fileItems (rules (n + 1))) ts = .ok items)
    (bare : Look.innerAttribute ts = false) {c : Cursor}
    (moved : List.Forall₂ (TokenTree.Moved here there) ts c.rest) :
    ∃ read d, ItemRun (rules (l + 1)).item c read d ∧ d.rest = [] ∧
      List.Forall₂ (Item.Moved here there) items (read.map Prod.snd) := by
  obtain ⟨_, _, read, d, inner, run, rfl, empty⟩ := run_of_file h
  rw [innerAttributes_of_none bare] at inner
  cases inner
  have sees : Sees [] [] ⟨ts, false, none⟩ { c with displaced := false } :=
    .of_moved (seenAll_eq (unplacedAll_of_moved moved)) false none c.last
  obtain ⟨read', d', run', inStep, seesEnd⟩ := run.carries le sees (.inl rfl)
  have nothing : d'.rest = [] := seesEnd.empty empty
  obtain ⟨e, behind, left⟩ := run'.of_noted c.displaced
  refine ⟨read', e, behind, left.trans nothing, moved_of_runs run run' inStep ?_⟩
  have tokens := run.tokens
  have tokens' := run'.tokens
  rw [empty, List.append_nil] at tokens
  rw [nothing, List.append_nil] at tokens'
  rw [← tokens, ← tokens']
  exact moved

/-- Files that are joined have the items of the one and then those of the other. -/
theorem file_append {ts us moved : List TokenTree} {items later : List Item}
    (first : parseAll (fileItems (rulesFor ts)) ts = .ok items) (nonempty : items ≠ [])
    (second : parseAll (fileItems (rulesFor us)) us = .ok later)
    (bare : Look.innerAttribute us = false)
    (same : List.Forall₂ (TokenTree.Moved here there) us moved) :
    ∃ items' later', parseAll (fileItems (rulesFor (ts ++ moved))) (ts ++ moved) =
        .ok (items' ++ later') ∧
      List.Forall₂ (Item.Moved 0 0) items items' ∧
      List.Forall₂ (Item.Moved here there) later later' := by
  have heavy : weightOfAll (ts ++ moved) = weightOfAll ts + weightOfAll us := by
    rw [weightOfAll_append, ← weightOfAll_unplacedAll moved, unplacedAll_of_moved same,
      weightOfAll_unplacedAll]
  obtain ⟨n, rulesFirst, deep⟩ := rulesFor_succ ts
  obtain ⟨m, rulesSecond, deep'⟩ := rulesFor_succ us
  obtain ⟨l, rulesBoth, deepest⟩ := rulesFor_succ (ts ++ moved)
  rw [heavy] at deepest
  have nestsFirst : n ≤ l := by simp only [usesPerToken] at deep deepest; omega
  have nestsSecond : m ≤ l := by simp only [usesPerToken] at deep' deepest; omega
  rw [rulesFirst] at first
  rw [rulesSecond] at second
  rw [rulesBoth]
  obtain ⟨attributes, c, read, d, inner, run, left, movedFirst⟩ :=
    file_leads nestsFirst first nonempty moved
  rw [← left] at same
  obtain ⟨readLater, e, behind, empty, movedSecond⟩ := file_follows nestsSecond second bare same
  have whole := file_of_run inner (run.append behind) empty
  rw [List.map_append] at whole
  exact ⟨_, _, whole, movedFirst, movedSecond⟩

end MacroExpansion.Grammar
