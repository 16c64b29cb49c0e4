import MacroExpansion.Proofs.Expansion.Outcomes

/-!
# Requests to a tree

A tree is asked to expand its invocations and to resolve names, any number of times in any order.
Only the first expansion changes it. What is asked before is answered by the tree as it was made,
and what is asked from then on by the expanded tree.
-/
namespace MacroExpansion

/-- What may be asked of a tree. -/
inductive Request where
  | expandAll
  | resolve (scope : ScopeId) (slot : Slot)
  deriving DecidableEq, Repr

inductive Answer where
  | results (results : List BoundElement)
  | binding (binding : Option Binding)
  deriving DecidableEq, Repr

/-- The answer that a tree gives as it is. -/
def SourceTree.answer (tree : SourceTree) : Request → Answer
  | .expandAll => .results tree.results
  | .resolve scope slot => .binding (tree.scopes.resolve scope slot)

namespace TracedTree

/-- Goes about a request. -/
def serve (t : TracedTree) : Request → Attempt Empty TracedTree
  | .expandAll => do
    let made ← t.tree.expandAll
    return ⟨made.tree, t.events ++ made.events⟩
  | .resolve _ _ => return t

/-- Goes about requests in order. Each is answered by the tree that it leaves behind. -/
def serveAll (t : TracedTree) : List Request → Attempt Empty (TracedTree × List Answer)
  | [] => return (t, [])
  | request :: rest => do
    let made ← t.serve request
    let (last, answers) ← made.serveAll rest
    return (last, made.tree.answer request :: answers)

/-- The tree with its invocations expanded, and what happened to it. -/
def expanded (t : TracedTree) : TracedTree :=
  ⟨t.tree.expanded.tree, t.events ++ t.tree.expanded.events⟩

variable {t : TracedTree}

/-- Expanding goes on from the events so far. -/
theorem run_expansionSteps (t : TracedTree) :
    t.run t.tree.expansionSteps =
      ⟨(run ⟨t.tree, []⟩ t.tree.expansionSteps).tree, t.expanded.events⟩ :=
  run_mk t.tree t.events t.tree.expansionSteps

theorem serve_expandAll_of_expanded {results : List BoundElement}
    (before : t.tree.expansions = some results) : t.serve .expandAll = .ok t := by
  rw [serve, SourceTree.expandAll_of_expanded before]
  change Except.ok (TracedTree.mk t.tree (t.events ++ [])) = Except.ok t
  rw [List.append_nil]

/-- An expanded tree answers everything as it is. -/
theorem serveAll_of_expanded {results : List BoundElement}
    (before : t.tree.expansions = some results) (requests : List Request) :
    t.serveAll requests = .ok (t, requests.map t.tree.answer) := by
  induction requests with
  | nil => rfl
  | cons request rest ih =>
    have served : t.serve request = .ok t := by
      cases request with
      | expandAll => exact serve_expandAll_of_expanded before
      | resolve scope slot => rfl
    rw [serveAll, served]
    change (t.serveAll rest >>= _) = _
    rw [ih]
    rfl

/-- Requests before an expansion leave a tree as it is. -/
theorem serveAll_of_notMem {requests : List Request} (never : .expandAll ∉ requests) :
    t.serveAll requests = .ok (t, requests.map t.tree.answer) := by
  induction requests with
  | nil => rfl
  | cons request rest ih =>
    cases request with
    | expandAll => exact absurd List.mem_cons_self never
    | resolve scope slot =>
      rw [serveAll]
      change (t.serveAll rest >>= _) = _
      rw [ih fun later => never (List.mem_cons_of_mem _ later)]
      rfl

/-- The first expansion takes place unless one of its invocations breaks it off, and everything from
there on is answered by the expanded tree. -/
theorem serveAll_of_fresh (fresh : t.tree.expansions = none) {before : List Request}
    (never : .expandAll ∉ before) (after : List Request) :
    t.serveAll (before ++ .expandAll :: after) =
      if t.tree.expansionAborts then .error .aborted
      else .ok (t.expanded,
        before.map t.tree.answer ++ (.expandAll :: after).map t.expanded.tree.answer) := by
  induction before with
  | nil =>
    rw [List.nil_append, serveAll, serve, SourceTree.expandAll_of_fresh fresh]
    cases t.tree.expansionAborts with
    | true => rfl
    | false =>
      change (t.expanded.serveAll after >>= _) = _
      rw [serveAll_of_expanded rfl]
      rfl
  | cons request rest ih =>
    cases request with
    | expandAll => exact absurd List.mem_cons_self never
    | resolve scope slot =>
      rw [List.cons_append, serveAll]
      change (t.serveAll (rest ++ .expandAll :: after) >>= _) = _
      rw [ih fun later => never (List.mem_cons_of_mem _ later)]
      cases t.tree.expansionAborts <;> rfl

/-- What requests to a new tree come to. -/
theorem serveAll_cases (fresh : t.tree.expansions = none) {requests : List Request}
    {last : TracedTree} {answers : List Answer}
    (served : t.serveAll requests = .ok (last, answers)) :
    (.expandAll ∉ requests ∧ last = t ∧ answers = requests.map t.tree.answer) ∨
    ∃ before after, requests = before ++ .expandAll :: after ∧ .expandAll ∉ before ∧
      t.tree.expansionAborts = false ∧ last = t.expanded ∧
      answers = before.map t.tree.answer ++ (.expandAll :: after).map t.expanded.tree.answer := by
  by_cases asked : .expandAll ∈ requests
  · obtain ⟨before, after, rfl, never⟩ := List.eq_append_cons_of_mem asked
    rw [serveAll_of_fresh fresh never] at served
    cases aborted : t.tree.expansionAborts with
    | true =>
      rw [aborted] at served
      cases served
    | false =>
      rw [aborted] at served
      cases served
      exact Or.inr ⟨before, after, rfl, never, rfl, rfl, rfl⟩
  · rw [serveAll_of_notMem asked] at served
    cases served
    exact Or.inl ⟨asked, rfl, rfl⟩

/-- Requests are broken off by an expansion only. -/
theorem serveAll_error (fresh : t.tree.expansions = none) {requests : List Request}
    {cause : Failure Empty} (served : t.serveAll requests = .error cause) :
    cause = .aborted ∧ .expandAll ∈ requests ∧ t.tree.expansionAborts = true := by
  by_cases asked : .expandAll ∈ requests
  · obtain ⟨before, after, rfl, never⟩ := List.eq_append_cons_of_mem asked
    rw [serveAll_of_fresh fresh never] at served
    cases aborted : t.tree.expansionAborts with
    | true =>
      rw [aborted] at served
      cases served
      exact ⟨rfl, asked, rfl⟩
    | false =>
      rw [aborted] at served
      cases served
  · rw [serveAll_of_notMem asked] at served
    cases served

section

variable {last : TracedTree} {requests : List Request} {answers : List Answer}
  (fresh : t.tree.expansions = none) (served : t.serveAll requests = .ok (last, answers))
include fresh served

theorem last_of_served : last = if .expandAll ∈ requests then t.expanded else t := by
  rcases serveAll_cases fresh served with ⟨never, rfl, _⟩ | ⟨before, after, rfl, _, _, rfl, _⟩
  · rw [if_neg never]
  · rw [if_pos (List.mem_append_right before List.mem_cons_self)]

theorem length_answers : answers.length = requests.length := by
  rcases serveAll_cases fresh served with ⟨_, _, rfl⟩ | ⟨before, after, rfl, _, _, _, rfl⟩ <;>
    simp

/-- A request is answered by the tree as it was made, unless an expansion was asked for by then. -/
theorem answer_of_served {k : Nat} {request : Request} (asked : requests[k]? = some request) :
    answers[k]? =
      some ((if .expandAll ∈ requests.take (k + 1) then last else t).tree.answer request) := by
  rcases serveAll_cases fresh served with
    ⟨_, rfl, rfl⟩ | ⟨before, after, rfl, never, _, rfl, rfl⟩
  · rw [List.getElem?_map, asked, ite_self]
    rfl
  · have number : (before.map t.tree.answer).length = before.length := List.length_map _
    rcases Nat.lt_or_ge k before.length with early | late
    · have not_yet : .expandAll ∉ (before ++ .expandAll :: after).take (k + 1) := by
        rw [List.take_append_of_le_length early]
        exact fun earlier => never (List.mem_of_mem_take earlier)
      rw [List.getElem?_append_left early] at asked
      rw [if_neg not_yet, List.getElem?_append_left (by omega), List.getElem?_map, asked]
      rfl
    · have already : .expandAll ∈ (before ++ .expandAll :: after).take (k + 1) := by
        obtain ⟨n, offset⟩ : ∃ n, k + 1 - before.length = n + 1 := ⟨k - before.length, by omega⟩
        rw [List.take_append, offset]
        exact List.mem_append_right _ List.mem_cons_self
      rw [List.getElem?_append_right late] at asked
      rw [if_pos already, List.getElem?_append_right (by omega), number, List.getElem?_map, asked]
      rfl

end

end TracedTree

end MacroExpansion
