import Mathlib.Data.List.Forall2
import MacroExpansion.Proofs.Grammar.Tracks.Item

/-!
# Runs of items

The items of a file are read one after another, each from its own tokens. Main statement: what is
read from some tokens is read from the same tokens in other places, with more tokens after them.
-/
namespace MacroExpansion.Grammar

open TokenTree

/-! ## Rules that nest deeper -/

/-- Rules that may nest deeper go the same way. -/
theorem tracked_rules {fit : List TokenTree → Prop} [Sound fit] {n m : Nat} (le : n ≤ m) :
    Rules.Tracked fit (rules n) (rules m) := by
  induction n generalizing m with
  | zero =>
    exact {
      type := fun _ _ => .refuse _
      bound := fun _ => .refuse _
      operand := fun _ _ => .refuse _
      climb := fun _ => .refuse _
      climbs := fun _ read => by cases read
      early := .refuse _
      pattern := fun _ => .refuse _
      statements := .refuse _
      item := .refuse _
      useTree := fun _ => .refuse _
      namedFields := fun _ => .refuse _ }
  | succ n ih =>
    obtain ⟨m, rfl⟩ : ∃ k, m = k + 1 := ⟨m - 1, by omega⟩
    have nested : Rules.Tracked fit (rules n) (rules m) := ih (by omega)
    exact {
      type := fun _ plus => Tracks.type plus
      bound := fun _ => Tracks.bound
      operand := fun _ structs => Tracks.operand structs
      climb := fun similar => Tracks.climb _ _ similar
      climbs := Tracks.fewer_of_climb nested
      early := Tracks.early
      pattern := fun _ => Tracks.pattern
      statements := Tracks.statements
      item := (closes_item _ _).tracks.weaken fun _ _ _ => trivial
      useTree := fun _ => Tracks.useTree
      namedFields := fun _ => Tracks.namedFields }

/-! ## Runs -/

/-- Items are read one after another, each from the tokens that stand with it. -/
inductive ItemRun (p : Parser Item) : Cursor → List (List TokenTree × Item) → Cursor → Prop
  | done (c : Cursor) : ItemRun p c [] c
  | next {c d e : Cursor} {taken : List TokenTree} {i : Item}
      {later : List (List TokenTree × Item)} (read : p c = .ok (i, d)) (took : Took taken c d)
      (closed : Closed taken) (run : ItemRun p d later e) : ItemRun p c ((taken, i) :: later) e

namespace ItemRun

variable {p : Parser Item} {c d e : Cursor} {read later : List (List TokenTree × Item)}

theorem append (first : ItemRun p c read d) (second : ItemRun p d later e) :
    ItemRun p c (read ++ later) e := by
  induction first with
  | done => exact second
  | next read took closed _ ih => exact .next read took closed (ih second)

/-- The tokens of the items are those that were read. -/
theorem tokens (run : ItemRun p c read d) : c.rest = (read.map Prod.fst).flatten ++ d.rest := by
  induction run with
  | done => rfl
  | next _ took _ _ ih =>
    rw [took.ahead, ih, List.map_cons, List.flatten_cons, List.append_assoc]

/-- Every item takes a token. -/
theorem length_le (run : ItemRun p c read d) : read.length ≤ c.rest.length := by
  induction run with
  | done => simp
  | @next c d e taken i later _ took closed _ ih =>
    have positive : taken.length ≠ 0 := by simpa using closed.not_nil
    rw [took.ahead, List.length_cons, List.length_append]
    omega

/-- Each item of a run was read of the tokens that stand with it, and these stand in a row. -/
theorem read_of_mem (run : ItemRun p c read e) {taken : List TokenTree} {i : Item}
    (member : (taken, i) ∈ read) :
    Closed taken ∧ (∃ front back, c.rest = front ++ (taken ++ back)) ∧
      ∃ here there, p here = .ok (i, there) ∧ Took taken here there := by
  induction run with
  | done => cases member
  | @next c d e own j later one took closed run ih =>
    rcases List.mem_cons.mp member with same | among
    · cases same
      exact ⟨closed, ⟨[], d.rest, took.ahead⟩, c, d, one, took⟩
    · obtain ⟨closed, ⟨front, back, ahead⟩, found⟩ := ih among
      exact ⟨closed, ⟨own ++ front, back, by rw [took.ahead, ahead, List.append_assoc]⟩, found⟩

end ItemRun

/-- One round of what is read to the end. -/
def itemRound (p : Parser Item) (read : List Item) : Parser (List Item × Bool) := do
  if ← peek .nothing then return (read, false)
  let i ← p
  return (i :: read, true)

section

variable {p : Parser Item} {before after : List Item} {c d : Cursor}

theorem roundsWithin_last (n : Nat) (empty : c.rest = []) :
    roundsWithin (itemRound p) (n + 1) before c = .ok (before, c) := by
  have looked : peek Look.nothing c = .ok (true, c) := by simp [peek, Look.nothing, empty]
  have round : itemRound p before c = .ok ((before, false), c) := by
    rw [itemRound, bind_ok looked]
    rfl
  rw [roundsWithin, bind_ok round]
  rfl

theorem roundsWithin_next (n : Nat) (nonempty : c.rest ≠ []) :
    roundsWithin (itemRound p) (n + 1) before c =
      (p >>= fun i => roundsWithin (itemRound p) n (i :: before)) c := by
  have looked : peek Look.nothing c = .ok (false, c) := by simp [peek, Look.nothing, nonempty]
  have round : itemRound p before c = (p >>= fun i => pure (i :: before, true)) c := by
    rw [itemRound, bind_ok looked]
    rfl
  change (itemRound p before c >>= _) = (p c >>= _)
  rw [round]
  change ((p c >>= _) >>= _) = _
  cases p c <;> rfl

/-- What is read to the end is a run that leaves nothing. -/
theorem run_of_roundsWithin {fit : List TokenTree → Prop} {R : Item → Item → Prop}
    {q : Parser Item} (closes : Closes fit R p q) {n : Nat}
    (h : roundsWithin (itemRound p) n before c = .ok (after, d)) :
    ∃ read, ItemRun p c read d ∧ after = (read.map Prod.snd).reverse ++ before ∧ d.rest = [] := by
  induction n generalizing c before with
  | zero => cases h
  | succ n ih =>
    by_cases empty : c.rest = []
    · rw [roundsWithin_last n empty] at h
      cases h
      exact ⟨[], .done _, rfl, empty⟩
    · rw [roundsWithin_next n empty] at h
      obtain ⟨i, mid, one, h⟩ := of_bind h
      obtain ⟨read, run, same, empty⟩ := ih h
      obtain ⟨taken, took, closed⟩ := closes.reads one
      exact ⟨(taken, i) :: read, .next one took closed run, by simp [same], empty⟩

theorem roundsWithin_of_run {read : List (List TokenTree × Item)} (run : ItemRun p c read d)
    (empty : d.rest = []) {n : Nat} (enough : read.length < n) :
    roundsWithin (itemRound p) n before c = .ok ((read.map Prod.snd).reverse ++ before, d) := by
  induction run generalizing n before with
  | done c =>
    obtain ⟨n, rfl⟩ : ∃ k, n = k + 1 := ⟨n - 1, by omega⟩
    exact roundsWithin_last n empty
  | @next c d e taken i later one took closed run ih =>
    obtain ⟨n, rfl⟩ : ∃ k, n = k + 1 := ⟨n - 1, by omega⟩
    have nonempty : c.rest ≠ [] := by
      rw [took.ahead]
      exact List.append_ne_nil_of_left_ne_nil closed.not_nil _
    rw [roundsWithin_next n nonempty, bind_ok one, ih empty (by simpa using enough)]
    simp

end

theorem run_of_untilEnd {fit : List TokenTree → Prop} {R : Item → Item → Prop} {p q : Parser Item}
    (closes : Closes fit R p q) {c d : Cursor} {items : List Item}
    (h : untilEnd p c = .ok (items, d)) :
    ∃ read, ItemRun p c read d ∧ items = read.map Prod.snd ∧ d.rest = [] := by
  obtain ⟨_, _, loop, given⟩ := of_bind h
  cases given
  obtain ⟨read, run, same, empty⟩ := run_of_roundsWithin closes loop
  exact ⟨read, run, by rw [same]; simp, empty⟩

/-- A run that leaves nothing is what is read to the end. -/
theorem untilEnd_of_run {p : Parser Item} {c d : Cursor} {read : List (List TokenTree × Item)}
    (run : ItemRun p c read d) (empty : d.rest = []) :
    untilEnd p c = .ok (read.map Prod.snd, d) := by
  have loop : rounds (itemRound p) [] c = .ok ((read.map Prod.snd).reverse ++ [], d) :=
    roundsWithin_of_run run empty (Nat.lt_succ_of_le run.length_le)
  refine (bind_ok loop).trans ?_
  rw [List.append_nil, List.reverse_reverse]
  rfl

/-! ## Where items stand -/

/-- From the first of some tokens to the last. -/
def stretch (ts : List TokenTree) : Extent :=
  ⟨((ts.head?.map TokenTree.extent).getD ⟨.origin, .origin⟩).start,
    ((ts.getLast?.map TokenTree.extent).getD ⟨.origin, .origin⟩).stop⟩

/-- What is read with its stretch is told where its tokens stand. -/
theorem of_placed {α : Type} {p : Parser α} {c d : Cursor} {a : α} {extent : Extent}
    {taken : List TokenTree} (read : placed p c = .ok ((a, extent), d)) (took : Took taken c d)
    (nonempty : taken ≠ []) : extent = stretch taken := by
  obtain ⟨_, _, got, read⟩ := of_bind read
  cases got
  obtain ⟨_, _, _, read⟩ := of_bind read
  obtain ⟨_, _, got, given⟩ := of_bind read
  cases got
  cases given
  have start : c.rest.head? = taken.head? := by
    rw [took.ahead, List.head?_append_of_ne_nil _ nonempty]
  have last : taken.getLast? = some (taken.getLast nonempty) :=
    List.getLast?_eq_some_getLast nonempty
  rw [start, took.last, stretch, last]
  rfl

/-- An item is told where its tokens stand. -/
theorem extent_of_item {r : Rules} {c d : Cursor} {i : Item} {taken : List TokenTree}
    (read : item r c = .ok (i, d)) (took : Took taken c d) (closed : Closed taken) :
    i.head.extent = stretch taken := by
  obtain ⟨_, start, noted, later⟩ := of_bind read
  obtain ⟨⟨⟨attributes, body⟩, extent⟩, stop, told, given⟩ := of_bind later
  obtain ⟨_, _, got, given⟩ := of_bind given
  cases noted
  cases got
  cases given
  have content : Ensures
      (do
        let attributes ← outerAttributes
        return (attributes, ← itemBody r)) fun read => read.2.Plain :=
    .bind fun _ => .bind_of (plain_itemBody r) fun _ plain => .pure plain
  obtain ⟨description, plain⟩ := content.placed _ _ _ told
  rw [(plain _).2.2]
  exact of_placed told ⟨took.ahead, took.last⟩ closed.not_nil

/-- What two runs tell of each other's items, and that they read tokens in the same way. -/
def InStep (x y : List TokenTree × Item) : Prop :=
  AlikeItems x.2 y.2 ∧ y.1.length = x.1.length

/-- A run goes the same way in another place, with more tokens after it. -/
theorem ItemRun.carries {n m : Nat} (le : n ≤ m) {more : List TokenTree} {c c' d : Cursor}
    {read : List (List TokenTree × Item)} (run : ItemRun (rules (n + 1)).item c read d)
    (sees : Sees [] more c c') (room : Room true more c.rest) :
    ∃ read' d', ItemRun (rules (m + 1)).item c' read' d' ∧
      List.Forall₂ InStep read read' ∧ Sees [] more d d' := by
  have nested : Rules.Tracked (fun _ => False) (rules n) (rules m) := tracked_rules le
  have same : Rules.Tracked (fun _ => False) (rules m) (rules m) := tracked_rules (Nat.le_refl m)
  have closes : Closes (fun _ => False) AlikeItems (rules (n + 1)).item (rules (m + 1)).item :=
    closes_item (rules n) (rules m)
  have closes' : Closes (fun _ => False) AlikeItems (rules (m + 1)).item (rules (m + 1)).item :=
    closes_item (rules m) (rules m)
  induction run generalizing c' with
  | done c => exact ⟨[], c', .done c', .nil, sees⟩
  | @next c d e taken i later one took closed run ih =>
    have held : Held [] more c d := ⟨.ahead room, d.rest, (List.append_nil _).symm⟩
    obtain ⟨i', d', one', alike, seesLater⟩ := closes.carries sees one held
    obtain ⟨taken', took', closed'⟩ := closes'.reads one'
    have long : taken'.length = taken.length := by
      have before := sees.length
      have after := seesLater.length
      rw [took.ahead, took'.ahead, List.length_append, List.length_append] at before
      simp only [List.length_nil, Nat.add_zero] at before after
      omega
    cases run with
    | done => exact ⟨_, d', .next one' took' closed' (.done d'), .cons ⟨alike, long⟩ .nil,
        seesLater⟩
    | @next _ mid _ taken₂ _ _ two took₂ closed₂ run =>
      have left : d.rest ≠ [] := by
        rw [took₂.ahead]
        exact List.append_ne_nil_of_left_ne_nil closed₂.not_nil _
      rw [took.ahead] at room
      obtain ⟨read', e', run', related, sees⟩ := ih seesLater (room.behind left)
      exact ⟨_, e', .next one' took' closed' run', .cons ⟨alike, long⟩ related, sees⟩

end MacroExpansion.Grammar
