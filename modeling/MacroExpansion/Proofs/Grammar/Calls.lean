import MacroExpansion.Proofs.Grammar.Levels

/-!
# Where calls come from

An invocation among expressions is read of tokens in a row, from its path to its group, and its path
has a segment. Main statement: whatever an expression of a text is, if it is an invocation then it
stands in the text so.
-/
namespace MacroExpansion.Grammar

open TokenTree

variable {root : List TokenTree}

/-- A call was read of tokens in a row in a text, from its path to its group. -/
structure CallStands (root : List TokenTree) (call : MacroCall) : Prop where
  named : call.path.segments ≠ []
  row : ∃ taken, Row root taken ∧ taken ≠ [] ∧ call.extent = stretch taken

/-- From where a cursor stands to the end of a group. -/
theorem stretch_of_group {c : Cursor} {front body rest : List TokenTree} {delimiter : Delimiter}
    {group : Extent} (tokens : c.rest = front ++ .group delimiter body group :: rest) :
    ⟨((c.rest.head?.map TokenTree.extent).getD ⟨.origin, .origin⟩).start, group.stop⟩ =
      stretch (front ++ [.group delimiter body group]) := by
  rw [stretch, List.getLast?_concat, tokens]
  cases front <;> rfl

/-- What is behind the path of a call, its group last. -/
theorem of_callOf {path : MacroPath} {start : Position} {c d : Cursor} {call : MacroCall}
    (read : callOf path start c = .ok (call, d)) :
    call.path = path ∧ ∃ front delimiter body group,
      c.rest = front ++ .group delimiter body group :: d.rest ∧
      call.extent = ⟨start, group.stop⟩ := by
  obtain ⟨_, mid, mark, read⟩ := of_bind read
  obtain ⟨⟨delimiter, body, group⟩, _, grouped, given⟩ := of_bind read
  cases given
  obtain ⟨t, _, first, got⟩ := of_bind grouped
  have moves : Moves (symbol "!") := inferInstance
  obtain ⟨front, took⟩ := moves.reads mark
  split at got <;> cases got
  exact ⟨rfl, front, _, _, _, by rw [took.ahead, of_tree first], rfl⟩

/-- A path that starts with no type in angle brackets has a segment. -/
theorem ensures_qualifiedPath (r : Rules) (expression : Bool) :
    Ensures (qualifiedPath r expression) fun read => read.1 = false → read.2.segments ≠ [] := by
  have plain : Ensures (path r expression) fun path => path.segments ≠ [] := by
    refine .bind fun _ => .bind fun first => .bind fun _ => ?_
    refine .roundsWithin (fun path nonempty => ?_) _ _ (List.cons_ne_nil first [])
    refine .bind fun more => ?_
    cases more with
    | true => exact .bind fun _ => .bind fun s => .pure (by simp)
    | false => exact .pure nonempty
  refine .bind fun angled => ?_
  cases angled with
  | true =>
    refine .bind fun _ => .bind fun cast => ?_
    cases cast <;> exact .bind fun _ => .bind fun _ => .bind fun _ => .bind fun _ => .pure nofun
  | false => exact .bind_of plain fun path nonempty => .pure fun _ => nonempty

/-- A plain path has a segment. -/
theorem ensures_plainPath : Ensures plainPath fun path => path.segments ≠ [] := by
  have more (read : List String) : Ensures
      (do
        unless ← peek plainSegment do refuse
        let read := (← word) :: read
        return (read, ← symbol? "::")) fun next => next.1 ≠ [] := by
    refine .bind fun _ => ?_
    split
    · exact .bind fun _ => .bind fun _ => .pure (List.cons_ne_nil _ _)
    · exact .bind fun _ => .bind fun _ => .bind fun _ => .pure (List.cons_ne_nil _ _)
  refine .bind fun rooted => .bind_of ?_ fun read nonempty => .pure nonempty
  refine .bind_of (.bind fun c => ?_) fun read nonempty => .pure (by simpa using nonempty)
  refine .bind_of (more []) fun (read, again) nonempty => ?_
  cases again with
  | true => exact .roundsWithin (fun read _ => more read) _ _ nonempty
  | false => exact .pure nonempty

/-- What an expression is stands in a text, if it is a call. -/
def ExprStands (root : List TokenTree) (shape : ExprShape) : Prop :=
  ∀ call, shape = .call call → CallStands root call

namespace ExprStands

theorem verbatim : ExprStands root .verbatim := nofun

theorem other : ExprStands root .other := nofun

end ExprStands

section

variable {r : Rules} [tracked : Rules.Tracked (fun _ => False) r r]

theorem tells_pathExpression (structs : Bool) :
    Tells root (pathExpression r structs) (ExprStands root) := by
  intro c shape d ahead read
  obtain ⟨_, _, started, read⟩ := of_bind read
  cases started
  obtain ⟨⟨qualified, path⟩, mid, early, later⟩ := of_bind read
  obtain ⟨call, _, looked, last⟩ := of_bind later
  obtain ⟨-, rfl⟩ := of_peek looked
  by_cases plain : (!qualified && path.isPlain && call) = true
  · rw [if_pos plain] at last
    obtain ⟨call, _, called, given⟩ := of_bind last
    cases given
    rintro _ ⟨⟩
    obtain ⟨named, front, delimiter, body, group, tokens, extent⟩ := of_callOf called
    have moves : Tracks (fun _ => False) false Eq (qualifiedPath r true) (qualifiedPath r true) :=
      inferInstance
    obtain ⟨before, took⟩ := moves.reads early
    have bare : qualified = false := by
      cases qualified with
      | true => cases plain
      | false => rfl
    have nonempty : call.path.segments ≠ [] := by
      rw [named, PathShape.toMacroPath, Ne, List.map_eq_nil_iff]
      exact ensures_qualifiedPath r true _ _ _ early bare
    have whole : c.rest = (before ++ front) ++ .group delimiter body group :: d.rest := by
      rw [took.ahead, tokens, List.append_assoc]
    exact ⟨nonempty, _, ahead.row_of (whole.trans (List.append_cons _ _ _)), by simp,
      extent.trans (stretch_of_group whole)⟩
  · rw [if_neg plain] at last
    have rest : Ensures (do
        if structs && (← peek (.group .brace)) then
          structFields r
          return if qualified then .verbatim else .other
        return .other) (ExprStands root) := by
      refine .bind fun seen => ?_
      split
      · refine .bind fun _ => .pure ?_
        cases qualified
        · exact .other
        · exact .verbatim
      · exact .pure .other
    exact rest _ _ _ last

omit tracked in
theorem ensures_closure (structs : Bool) : Ensures (closure r structs) (ExprStands root) := by
  unfold closure
  repeat' first
    | with_reducible refine Ensures.bind fun _ => ?_
    | split
    | exact Ensures.pure fun _ same => by cases same

omit tracked in
/-- No block is a call. -/
theorem ensures_blockExpression? :
    Ensures (blockExpression? r) fun shape => ∀ call, shape ≠ some (.call call) := by
  unfold blockExpression?
  repeat' first
    | with_reducible refine Ensures.bind fun _ => ?_
    | split
    | exact Ensures.pure fun _ same => by cases same

/-- An atom that is a call is read as a path. -/
theorem tells_atom (structs : Bool) : Tells root (atom r structs) (ExprStands root) := by
  unfold atom
  repeat' first
    | exact tells_pathExpression structs
    | exact Tells.of_ensures (ensures_closure structs)
    | exact Tells.of_ensures (.pure fun _ same => by cases same)
    | with_reducible refine Tells.ite ?_ ?_
    | with_reducible
        refine Tells.of_ensures (.bind_of ensures_blockExpression? fun shape told => ?_)
    | with_reducible refine Tells.bind fun _ => ?_
  cases shape with
  | some shape => exact .pure fun call same => absurd (congrArg some same) (told call)
  | none => exact .refuse

omit tracked in
/-- What something is applied to is no call any more. -/
theorem ensures_trailers {shape : ExprShape} (stands : ExprStands root shape) :
    Ensures (trailers r shape) (ExprStands root) := by
  refine .bind fun _ => .roundsWithin (fun shape stands => ?_) _ _ stands
  repeat' first
    | exact Ensures.pure stands
    | exact Ensures.pure fun _ same => by cases same
    | split
    | with_reducible refine Ensures.bind fun _ => ?_

theorem tells_operand (structs : Bool) : Tells root (operand r structs) (ExprStands root) := by
  refine .get fun c => .bind fun _ => .bind fun _ => .ite (.of_ensures ?_) ?_
  · repeat' first
      | exact Ensures.pure .verbatim
      | exact Ensures.pure .other
      | with_reducible refine Ensures.bind fun _ => ?_
      | split
  · refine .bind fun _ => .ite (.of_ensures ?_) ?_
    · exact .bind fun _ => .bind fun _ => .pure .other
    · -- what is displaced does not change what the expression is
      refine .bind_of (tells_atom structs) fun _ stands => .of_ensures ?_
      refine .bind_of (ensures_trailers stands) fun shape stands => ?_
      cases shape <;> first | exact .bind fun _ => .pure stands | exact .pure stands

omit tracked in
theorem ensures_climbStep (structs : Bool) (base : Precedence) :
    Ensures (climbStep r structs base) fun joined => ∀ call, joined ≠ some (.call call) := by
  unfold climbStep
  repeat' first
    | with_reducible refine Ensures.bind fun _ => ?_
    | split
    | exact Ensures.pure fun _ same => by cases same

omit tracked in
/-- What operators join is no call any more. -/
theorem ensures_climb (structs : Bool) (base : Precedence) {left : ExprShape}
    (stands : ExprStands root left) :
    Ensures (climb r structs left base) (ExprStands root) := by
  refine .bind fun _ => .roundsWithin (fun left stands => ?_) _ _ stands
  refine .bind_of (ensures_climbStep structs base) fun joined told => ?_
  cases joined with
  | some joined => exact .pure fun call same => absurd (congrArg some same) (told call)
  | none => exact .pure stands

/-- Whatever expression the rules read of a text stands there, if it is a call. -/
structure Rules.CallsStand (root : List TokenTree) (r : Rules) : Prop where
  operand (structs : Bool) : Tells root (r.operand structs) (ExprStands root)
  climb (structs : Bool) (base : Precedence) {left : ExprShape} (stands : ExprStands root left) :
    Ensures (r.climb structs left base) (ExprStands root)
  early : Tells root r.early (ExprStands root)

variable (rules : r.CallsStand root)
include rules

theorem tells_expression (structs : Bool) : Tells root (r.expression structs) (ExprStands root) :=
  .bind_of (rules.operand structs) fun _ stands => .of_ensures (rules.climb structs .none stands)

theorem tells_early : Tells root (early r) (ExprStands root) := by
  refine .bind fun _ => .bind_of (.of_ensures ensures_blockExpression?) fun shape told => ?_
  cases shape with
  | none => exact tells_expression rules true
  | some shape =>
    have stands : ExprStands root shape := fun call same =>
      absurd (congrArg some same) (told call)
    refine .of_ensures (.bind fun _ => ?_)
    split
    · exact .bind_of (ensures_trailers stands) fun _ stands => rules.climb true .none stands
    · exact .pure stands

/-- The initial value of a variable stands in a text, if it is a call. -/
theorem tells_declaration : Tells root (declaration r) fun call =>
    ∀ c ∈ call, CallStands root c := by
  unfold declaration
  repeat' first
    | exact Tells.of_ensures (.pure fun _ held => by cases held)
    | with_reducible refine Tells.ite ?_ ?_
    | with_reducible
        refine .bind_of (tells_expression rules true) fun value stands => .of_ensures ?_
    | with_reducible refine Tells.bind fun _ => ?_
  -- the value is a call only if nothing else is told to run
  all_goals
    refine .bind fun conditional => .bind fun _ => ?_
    split
    next => exact .pure fun c same => by cases same; exact stands _ rfl
    next => exact .pure fun _ held => by cases held

end

/-- Whatever call the rules read of a text stands there. -/
theorem callsStand_rules (depth : Nat) : (rules depth).CallsStand root := by
  induction depth with
  | zero => exact ⟨fun _ => .of_ensures .refuse, fun _ _ _ _ => .refuse, .of_ensures .refuse⟩
  | succ depth ih =>
    have tracked : Rules.Tracked (fun _ => False) (rules depth) (rules depth) :=
      tracked_rules (Nat.le_refl depth)
    exact ⟨tells_operand, fun structs base _ => ensures_climb structs base, tells_early ih⟩

end MacroExpansion.Grammar
