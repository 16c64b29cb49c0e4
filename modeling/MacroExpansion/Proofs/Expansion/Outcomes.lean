import MacroExpansion.Proofs.Expansion.Context
import MacroExpansion.Proofs.Walk.Effects
import MacroExpansion.Tree.Expansion

/-!
# The expansion of a file, invocation by invocation

Expanding the invocations of a tree gives what each of them gives on its own, by the definitions
that are visible at its position in the tree. What it does to the tree are steps that report events
and bind the names of results: no scope, no textual scope and no invocation is added.
-/
namespace MacroExpansion

namespace RecordedInvocation

/-- What it expands to by the definitions that are visible at its position, if to anything, and what
happens on the way. -/
def expansion (r : RecordedInvocation) (textual : TextualScopes) :
    Attempt Empty (Option (List BoundElement)) × List Event :=
  (expandOrNone (textual.lookup r.position) r.invocation).outcome

/-- Whether its expansion is broken off. -/
def aborts (r : RecordedInvocation) (textual : TextualScopes) : Bool :=
  match (r.expansion textual).1 with
  | .ok _ => false
  | .error _ => true

/-- The results of its expansion, none where it stays as it is. -/
def results (r : RecordedInvocation) (textual : TextualScopes) : List BoundElement :=
  match (r.expansion textual).1 with
  | .ok (some results) => results
  | _ => []

/-- How the names of its results are bound. -/
def declarations (r : RecordedInvocation) (textual : TextualScopes) :
    List (ScopeId × Declaration) :=
  (r.results textual).filterMap fun result =>
    (result.declaration? r.invocation).map fun declaration => (result.context, declaration)

/-- What expanding it does to a tree. -/
def steps (r : RecordedInvocation) (textual : TextualScopes) : List TreeStep :=
  ((r.expansion textual).2.map fun event => .report (.expansion event)) ++
    match (r.expansion textual).1 with
    | .ok (some results) =>
      .report (.expanded r.invocation results.length) ::
        (r.declarations textual).map fun attempt => .declare attempt.1 attempt.2
    | _ => []

end RecordedInvocation

namespace TracedTree

theorem run_reports (t : TracedTree) (events : List Event) :
    t.run (events.map fun event => .report (.expansion event)) =
      { t with events := t.events ++ events.map .expansion } := by
  induction events generalizing t with
  | nil => simp
  | cons event rest ih =>
    rw [List.map_cons, run_cons, ih]
    simp [step, report]

theorem foldl_bindResult (invocation : MacroInvocation) (t : TracedTree)
    (results : List BoundElement) :
    results.foldl (bindResult invocation) t =
      t.run ((results.filterMap fun result =>
        (result.declaration? invocation).map fun declaration => (result.context, declaration)).map
          fun attempt => .declare attempt.1 attempt.2) := by
  induction results generalizing t with
  | nil => rfl
  | cons result rest ih =>
    rw [List.foldl_cons, ih, bindResult, List.filterMap_cons]
    cases result.declaration? invocation <;> rfl

end TracedTree

/-! ## What the steps are -/

namespace RecordedInvocation

variable (r : RecordedInvocation) (textual : TextualScopes)

/-- Names are bound in the scope of the invocation. -/
theorem context_of_mem_declarations {attempt : ScopeId × Declaration}
    (member : attempt ∈ r.declarations textual) :
    r.invocation.context.scope? = some attempt.1 := by
  obtain ⟨result, given, asked⟩ := List.mem_filterMap.mp member
  obtain ⟨declaration, _, rfl⟩ := Option.map_eq_some_iff.mp asked
  unfold results at given
  split at given
  next results found => exact context_of_expandOrNone ⟨[], found⟩ result given
  next => cases given

/-- Expanding an invocation reports what happens and binds names, and does nothing else. -/
theorem mem_steps {s : TreeStep} (member : s ∈ r.steps textual) :
    (∃ event, s = .report (.expansion event)) ∨
      (∃ count, s = .report (.expanded r.invocation count)) ∨
      ∃ attempt ∈ r.declarations textual, s = .declare attempt.1 attempt.2 := by
  unfold steps at member
  rcases List.mem_append.mp member with reported | bound
  · obtain ⟨event, _, rfl⟩ := List.mem_map.mp reported
    exact Or.inl ⟨event, rfl⟩
  · right
    split at bound
    · rcases List.mem_cons.mp bound with rfl | declared
      · exact Or.inl ⟨_, rfl⟩
      · obtain ⟨attempt, asked, rfl⟩ := List.mem_map.mp declared
        exact Or.inr ⟨attempt, asked, rfl⟩
    · cases bound

theorem declared_steps :
    (r.steps textual).filterMap TreeStep.declared? = r.declarations textual := by
  unfold steps
  rw [List.filterMap_append, List.filterMap_map]
  have reports : (r.expansion textual).2.filterMap
      (TreeStep.declared? ∘ fun event => .report (.expansion event)) = [] :=
    List.filterMap_eq_nil_iff.mpr fun _ _ => rfl
  rw [reports, List.nil_append]
  split
  · rw [List.filterMap_cons, List.filterMap_map]
    exact List.filterMap_some
  next other =>
    have noResults : r.results textual = [] := by
      unfold results
      split
      next results found => exact absurd found (other results)
      next => rfl
    rw [declarations, noResults]
    rfl

theorem textual_run_steps (t : TextualScopes) : t.run (r.steps textual) = t := by
  apply t.run_eq_self
  intro s member
  obtain ⟨_, rfl⟩ | ⟨_, rfl⟩ | ⟨_, _, rfl⟩ := r.mem_steps textual member <;> rfl

end RecordedInvocation

/-! ## The expansion as a whole -/

namespace TracedTree

/-- Expanding an invocation makes no textual scope. -/
theorem textual_steps (t : TracedTree) (r : RecordedInvocation) (textual : TextualScopes) :
    (t.run (r.steps textual)).tree.textual = t.tree.textual := by
  rw [textual_run, r.textual_run_steps]

/-- Expanding the first of some invocations, and then the others. -/
theorem expandEach_cons (t : TracedTree) (r : RecordedInvocation)
    (rest : List RecordedInvocation) :
    t.expandEach (r :: rest) =
      if r.aborts t.tree.textual then .error .aborted
      else ((t.run (r.steps t.tree.textual)).expandEach rest).map fun made =>
        (made.1, r.results t.tree.textual ++ made.2) := by
  have same : (expandOrNone (t.tree.textual.lookup r.position) r.invocation).outcome =
      r.expansion t.tree.textual := rfl
  unfold RecordedInvocation.steps RecordedInvocation.aborts RecordedInvocation.declarations
    RecordedInvocation.results
  rw [expandEach, same]
  rcases r.expansion t.tree.textual with ⟨outcome, events⟩
  rcases outcome with cause | _ | results
  · rcases cause with ⟨⟨⟩⟩ | _
    rfl
  · simp only [Bool.false_eq_true, if_false, List.append_nil, run_reports, List.nil_append]
    cases (TracedTree.mk t.tree (t.events ++ events.map .expansion)).expandEach rest <;> rfl
  · simp only [Bool.false_eq_true, if_false, run_append, run_reports, run_cons,
      ← foldl_bindResult]
    rfl

/-- Expanding invocations is expanding each of them on its own, unless one is broken off. -/
theorem expandEach_eq (t : TracedTree) (list : List RecordedInvocation) :
    t.expandEach list =
      if list.any fun r => r.aborts t.tree.textual then .error .aborted
      else .ok (t.run (list.flatMap fun r => r.steps t.tree.textual),
        list.flatMap fun r => r.results t.tree.textual) := by
  induction list generalizing t with
  | nil => rfl
  | cons r rest ih =>
    rw [expandEach_cons, ih, textual_steps, List.any_cons, List.flatMap_cons, List.flatMap_cons,
      run_append]
    cases r.aborts t.tree.textual with
    | true => rfl
    | false =>
      cases rest.any fun r => r.aborts t.tree.textual with
      | true => rfl
      | false => rfl

end TracedTree

namespace SourceTree

variable (tree : SourceTree)

/-- What expanding all invocations does to the tree. -/
def expansionSteps : List TreeStep :=
  tree.invocations.flatMap fun r => r.steps tree.textual

/-- What all invocations expand to, in the order they were recorded in. -/
def expansionResults : List BoundElement :=
  tree.invocations.flatMap fun r => r.results tree.textual

/-- How the names of the results are bound. -/
def expansionDeclarations : List (ScopeId × Declaration) :=
  tree.invocations.flatMap fun r => r.declarations tree.textual

/-- Whether the expansion of an invocation is broken off. -/
def expansionAborts : Bool :=
  tree.invocations.any fun r => r.aborts tree.textual

/-- The tree with its invocations expanded. -/
def expanded : TracedTree :=
  let t := TracedTree.run ⟨tree, []⟩ tree.expansionSteps
  { t with tree := { t.tree with expansions := some tree.expansionResults } }

variable {tree}

/-- The first expansion is that of every invocation on its own. -/
theorem expandAll_of_fresh (fresh : tree.expansions = none) :
    tree.expandAll = if tree.expansionAborts then .error .aborted else .ok tree.expanded := by
  unfold expandAll
  rw [fresh, TracedTree.expandEach_eq, expansionAborts]
  cases tree.invocations.any fun r => r.aborts tree.textual <;> rfl

/-- A later one does nothing. -/
theorem expandAll_of_expanded {results : List BoundElement}
    (before : tree.expansions = some results) : tree.expandAll = .ok ⟨tree, []⟩ := by
  unfold expandAll
  rw [before]

/-- The expansion is broken off by an invocation whose own expansion is. -/
theorem exists_aborted_of_expansionAborts (h : tree.expansionAborts = true) :
    ∃ r ∈ tree.invocations,
      (expandOrNone (tree.textual.lookup r.position) r.invocation).outcome.1 = .error .aborted := by
  obtain ⟨r, recorded, aborts⟩ := List.any_eq_true.mp h
  refine ⟨r, recorded, ?_⟩
  unfold RecordedInvocation.aborts at aborts
  split at aborts
  · cases aborts
  next cause found =>
    rcases cause with ⟨⟨⟩⟩ | _
    exact found

theorem mem_expansionSteps {s : TreeStep} (member : s ∈ tree.expansionSteps) :
    ∃ r ∈ tree.invocations, s ∈ r.steps tree.textual :=
  List.mem_flatMap.mp member

theorem declared_expansionSteps :
    tree.expansionSteps.filterMap TreeStep.declared? = tree.expansionDeclarations := by
  unfold expansionSteps expansionDeclarations
  rw [List.filterMap_flatMap]
  congr 1
  funext r
  exact r.declared_steps tree.textual

/-- Every step of an expansion reports something other than a refusal, or binds a name. -/
theorem expansionSteps_cases {s : TreeStep} (member : s ∈ tree.expansionSteps) :
    (∃ event, s = .report event ∧ event.refusal? = none) ∨
      ∃ attempt ∈ tree.expansionDeclarations, s = .declare attempt.1 attempt.2 := by
  obtain ⟨r, recorded, member⟩ := mem_expansionSteps member
  obtain ⟨event, rfl⟩ | ⟨count, rfl⟩ | ⟨attempt, asked, rfl⟩ := r.mem_steps tree.textual member
  · exact Or.inl ⟨_, rfl, rfl⟩
  · exact Or.inl ⟨_, rfl, rfl⟩
  · exact Or.inr ⟨attempt, List.mem_flatMap.mpr ⟨r, recorded, asked⟩, rfl⟩

/-! What is as it was in the expanded tree. -/

variable (tree)

theorem textual_expanded : tree.expanded.tree.textual = tree.textual := by
  have still : tree.textual.run tree.expansionSteps = tree.textual := by
    apply tree.textual.run_eq_self
    intro s member
    obtain ⟨_, rfl, _⟩ | ⟨_, _, rfl⟩ := expansionSteps_cases member <;> rfl
  exact (TracedTree.textual_run _ _).trans still

theorem invocations_expanded : tree.expanded.tree.invocations = tree.invocations := by
  have nothingRecorded : tree.expansionSteps.filterMap TreeStep.recorded? = [] := by
    apply List.filterMap_eq_nil_iff.mpr
    intro s member
    obtain ⟨_, rfl, _⟩ | ⟨_, _, rfl⟩ := expansionSteps_cases member <;> rfl
  have run := TracedTree.invocations_run ⟨tree, []⟩ tree.expansionSteps
  rw [nothingRecorded, List.append_nil] at run
  exact run

theorem shape_expanded : tree.expanded.tree.scopes.shape = tree.scopes.shape := by
  have nothingOpened : tree.expansionSteps.filterMap TreeStep.opened? = [] := by
    apply List.filterMap_eq_nil_iff.mpr
    intro s member
    obtain ⟨_, rfl, _⟩ | ⟨_, _, rfl⟩ := expansionSteps_cases member <;> rfl
  have run := TracedTree.shape_run ⟨tree, []⟩ tree.expansionSteps
  rw [nothingOpened, List.append_nil] at run
  exact run

end SourceTree

end MacroExpansion
