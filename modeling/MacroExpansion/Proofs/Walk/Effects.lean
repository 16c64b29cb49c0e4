import MacroExpansion.Proofs.Walk.Script

/-!
# What the steps of a walk do

The parts of a tree are read off the steps that made it: which scopes there are, with their kinds
and parents; which invocations were recorded; which textual scopes were made. Declaring changes no
more than the bindings of one scope and the events.
-/
namespace MacroExpansion

namespace ScopeTree

/-- The kinds and parents of all scopes. -/
def shape (t : ScopeTree) : List (ScopeKind × Option ScopeId) :=
  t.nodes.toList.map fun node => (node.kind, node.parent)

/-- The binding of a name in a scope. -/
def binding? (t : ScopeTree) (scope : ScopeId) (slot : Slot) : Option Binding :=
  (t.get? scope).bind fun node => node.bindings.get? slot

@[simp] theorem length_shape (t : ScopeTree) : t.shape.length = t.size := by
  simp [shape, size]

theorem getElem?_shape (t : ScopeTree) (scope : ScopeId) :
    t.shape[scope.index]? = (t.get? scope).map fun node => (node.kind, node.parent) := by
  simp [shape, get?]

theorem kind?_eq (t : ScopeTree) (scope : ScopeId) :
    t.kind? scope = t.shape[scope.index]?.map Prod.fst := by
  simp [getElem?_shape, kind?, Function.comp_def]

theorem parent?_eq (t : ScopeTree) (scope : ScopeId) :
    t.parent? scope = t.shape[scope.index]?.bind Prod.snd := by
  rw [getElem?_shape, parent?]
  cases t.get? scope <;> rfl

theorem shape_add (t : ScopeTree) (kind : ScopeKind) (parent : ScopeId) :
    (t.add kind parent).1.shape = t.shape ++ [(kind, some parent)] := by
  simp [add, shape]

/-- What a successful declaration does: nothing where there is no scope, and one more binding where
the name is free. -/
theorem declare_cases {t made : ScopeTree} {scope : ScopeId} {slot : Slot} {binding : Binding}
    (h : t.declare scope slot binding = .ok made) :
    (t.get? scope = none ∧ made = t) ∨
    ∃ node bindings, t.get? scope = some node ∧ node.bindings.insert slot binding = .ok bindings ∧
      made = ⟨t.nodes.modify scope.index fun node => { node with bindings }⟩ := by
  unfold declare at h
  cases found : t.get? scope with
  | none =>
    rw [found] at h
    cases h
    exact Or.inl ⟨rfl, rfl⟩
  | some node =>
    simp only [found] at h
    cases inserted : node.bindings.insert slot binding with
    | error cause =>
      rw [inserted] at h
      cases h
    | ok bindings =>
      rw [inserted] at h
      cases h
      exact Or.inr ⟨node, bindings, rfl, inserted, rfl⟩

theorem shape_declare {t made : ScopeTree} {scope : ScopeId} {slot : Slot} {binding : Binding}
    (h : t.declare scope slot binding = .ok made) : made.shape = t.shape := by
  obtain ⟨_, rfl⟩ | ⟨node, bindings, _, _, rfl⟩ := declare_cases h
  · rfl
  · apply List.ext_getElem?
    intro i
    simp only [shape, List.getElem?_map, Array.getElem?_toList, Array.getElem?_modify]
    split <;> cases t.nodes[i]? <;> rfl

end ScopeTree

/-! ## Single steps -/

namespace TracedTree

/-- Declaring changes the bindings of scopes and the events, and nothing else. -/
theorem declare_frame (t : TracedTree) (scope : ScopeId) (d : Declaration) :
    ∃ scopes events, t.declare scope d = ⟨{ t.tree with scopes }, events⟩ ∧
      scopes.shape = t.tree.scopes.shape := by
  unfold declare
  split
  next scopes made => exact ⟨scopes, t.events, rfl, ScopeTree.shape_declare made⟩
  next cause _ => exact ⟨t.tree.scopes, _, rfl, rfl⟩

theorem file_step (t : TracedTree) (s : TreeStep) : (t.step s).tree.file = t.tree.file := by
  cases s with
  | declare scope d =>
    obtain ⟨scopes, events, made, _⟩ := t.declare_frame scope d
    rw [step, made]
  | register name body =>
    simp only [step, register]
    split <;> rfl
  | report _ | addScope _ _ | append _ _ | submodule _ | record _ _ => rfl

theorem expansions_step (t : TracedTree) (s : TreeStep) :
    (t.step s).tree.expansions = t.tree.expansions := by
  cases s with
  | declare scope d =>
    obtain ⟨scopes, events, made, _⟩ := t.declare_frame scope d
    rw [step, made]
  | register name body =>
    simp only [step, register]
    split <;> rfl
  | report _ | addScope _ _ | append _ _ | submodule _ | record _ _ => rfl

end TracedTree

/-- The scope that a step makes. -/
def TreeStep.opened? : TreeStep → Option (ScopeKind × Option ScopeId)
  | addScope kind parent => some (kind, some parent)
  | _ => none

/-- What an event says was refused, and where. -/
def TreeEvent.refusal? : TreeEvent → Option (Span × AlreadyDefined)
  | refused span cause => some (span, cause)
  | _ => none

/-- What a step declares. -/
def TreeStep.declared? : TreeStep → Option (ScopeId × Declaration)
  | declare scope declaration => some (scope, declaration)
  | _ => none

/-- The invocation that a step records. -/
def TreeStep.recorded? : TreeStep → Option RecordedInvocation
  | record invocation position => some ⟨invocation, position⟩
  | _ => none

/-- What a step does to textual scopes. -/
def TextualScopes.step (t : TextualScopes) : TreeStep → TextualScopes
  | .append position definition => (t.append position definition).1
  | .submodule position => (t.submodule position).1
  | _ => t

def TextualScopes.run (t : TextualScopes) (steps : List TreeStep) : TextualScopes :=
  steps.foldl step t

@[simp] theorem TextualScopes.run_nil (t : TextualScopes) : t.run [] = t := rfl

@[simp] theorem TextualScopes.run_cons (t : TextualScopes) (s : TreeStep) (steps : List TreeStep) :
    t.run (s :: steps) = (t.step s).run steps := rfl

theorem TextualScopes.run_append (t : TextualScopes) (xs ys : List TreeStep) :
    t.run (xs ++ ys) = (t.run xs).run ys := by
  simp [run]

theorem TextualScopes.run_eq_self (t : TextualScopes) {steps : List TreeStep}
    (still : ∀ s ∈ steps, t.step s = t) : t.run steps = t := by
  induction steps with
  | nil => rfl
  | cons s rest ih =>
    rw [run_cons, still s List.mem_cons_self]
    exact ih fun s' later => still s' (List.mem_cons_of_mem s later)

namespace TracedTree

theorem shape_step (t : TracedTree) (s : TreeStep) :
    (t.step s).tree.scopes.shape = t.tree.scopes.shape ++ s.opened?.toList := by
  cases s with
  | declare scope d =>
    obtain ⟨scopes, events, made, same⟩ := t.declare_frame scope d
    rw [step, made, same]
    simp [TreeStep.opened?]
  | addScope kind parent => exact t.tree.scopes.shape_add kind parent
  | register name body =>
    simp only [step, register, TreeStep.opened?]
    split <;> simp [report]
  | report _ | append _ _ | submodule _ | record _ _ =>
    simp [step, report, append, submodule, record, TreeStep.opened?]

theorem invocations_step (t : TracedTree) (s : TreeStep) :
    (t.step s).tree.invocations = t.tree.invocations ++ s.recorded?.toList := by
  cases s with
  | declare scope d =>
    obtain ⟨scopes, events, made, _⟩ := t.declare_frame scope d
    rw [step, made]
    simp [TreeStep.recorded?]
  | register name body =>
    simp only [step, register, TreeStep.recorded?]
    split <;> simp [report]
  | record invocation position => rfl
  | report _ | append _ _ | submodule _ | addScope _ _ =>
    simp [step, report, append, submodule, addScope, TreeStep.recorded?]

theorem textual_step (t : TracedTree) (s : TreeStep) :
    (t.step s).tree.textual = t.tree.textual.step s := by
  cases s with
  | declare scope d =>
    obtain ⟨scopes, events, made, _⟩ := t.declare_frame scope d
    rw [step, made]
    rfl
  | register name body =>
    simp only [step, register]
    split <;> rfl
  | report _ | addScope _ _ | append _ _ | submodule _ | record _ _ => rfl

theorem supply_step (t : TracedTree) (s : TreeStep) : (t.step s).supply = t.supply.step s := by
  have scopes : (t.step s).tree.scopes.size = t.tree.scopes.size + s.opened?.toList.length := by
    rw [← ScopeTree.length_shape, shape_step, List.length_append, ScopeTree.length_shape]
  rw [supply, scopes, textual_step]
  cases s <;> simp [supply, Supply.step, TreeStep.opened?, TextualScopes.step]

/-- What a step does to a tree and which events it adds do not hang on the events before it. -/
theorem step_mk (tree : SourceTree) (events : List TreeEvent) (s : TreeStep) :
    step ⟨tree, events⟩ s = ⟨(step ⟨tree, []⟩ s).tree, events ++ (step ⟨tree, []⟩ s).events⟩ := by
  cases s with
  | declare scope d =>
    simp only [step, declare]
    split <;> simp [report]
  | register name body =>
    simp only [step, register]
    split <;> simp [report]
  | report _ | addScope _ _ | append _ _ | submodule _ | record _ _ =>
    simp [step, report, addScope, append, submodule, record]

/-! ## Whole runs -/

theorem run_mk (tree : SourceTree) (events : List TreeEvent) (steps : List TreeStep) :
    run ⟨tree, events⟩ steps =
      ⟨(run ⟨tree, []⟩ steps).tree, events ++ (run ⟨tree, []⟩ steps).events⟩ := by
  induction steps generalizing tree events with
  | nil => simp
  | cons s rest ih =>
    rw [run_cons, run_cons, step_mk, ih, ih (step ⟨tree, []⟩ s).tree (step ⟨tree, []⟩ s).events,
      List.append_assoc]

theorem file_run (t : TracedTree) (steps : List TreeStep) :
    (t.run steps).tree.file = t.tree.file := by
  induction steps generalizing t with
  | nil => rfl
  | cons s rest ih => rw [run_cons, ih, file_step]

theorem expansions_run (t : TracedTree) (steps : List TreeStep) :
    (t.run steps).tree.expansions = t.tree.expansions := by
  induction steps generalizing t with
  | nil => rfl
  | cons s rest ih => rw [run_cons, ih, expansions_step]

theorem shape_run (t : TracedTree) (steps : List TreeStep) :
    (t.run steps).tree.scopes.shape = t.tree.scopes.shape ++ steps.filterMap TreeStep.opened? := by
  induction steps generalizing t with
  | nil => simp
  | cons s rest ih =>
    rw [run_cons, ih, shape_step, List.append_assoc, List.filterMap_cons]
    cases s.opened? <;> rfl

theorem invocations_run (t : TracedTree) (steps : List TreeStep) :
    (t.run steps).tree.invocations =
      t.tree.invocations ++ steps.filterMap TreeStep.recorded? := by
  induction steps generalizing t with
  | nil => simp
  | cons s rest ih =>
    rw [run_cons, ih, invocations_step, List.append_assoc, List.filterMap_cons]
    cases s.recorded? <;> rfl

theorem textual_run (t : TracedTree) (steps : List TreeStep) :
    (t.run steps).tree.textual = t.tree.textual.run steps := by
  induction steps generalizing t with
  | nil => rfl
  | cons s rest ih => rw [run_cons, ih, textual_step, TextualScopes.run_cons]

theorem supply_run (t : TracedTree) (steps : List TreeStep) :
    (t.run steps).supply = t.supply.after steps := by
  induction steps generalizing t with
  | nil => rfl
  | cons s rest ih => rw [run_cons, ih, supply_step, Supply.after_cons]

/-- A scope keeps its kind. -/
theorem kind?_run {t : TracedTree} {scope : ScopeId} {kind : ScopeKind}
    (h : t.tree.scopes.kind? scope = some kind) (steps : List TreeStep) :
    (t.run steps).tree.scopes.kind? scope = some kind := by
  rw [ScopeTree.kind?_eq] at h ⊢
  obtain ⟨entry, found, rfl⟩ := Option.map_eq_some_iff.mp h
  rw [shape_run, List.getElem?_append_left (List.getElem?_eq_some_iff.mp found).1, found,
    Option.map_some]

theorem kind?_step {t : TracedTree} {scope : ScopeId} {kind : ScopeKind}
    (h : t.tree.scopes.kind? scope = some kind) (s : TreeStep) :
    (t.step s).tree.scopes.kind? scope = some kind :=
  kind?_run h [s]

end TracedTree

end MacroExpansion
