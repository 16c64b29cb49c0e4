import MacroExpansion.Proofs.Walk.Reading

/-!
# The same walk from another textual position

A script tells textual scopes by their numbers. Which number the next one gets, and at which one the
walk stands, changes these numbers in its steps and nothing else. Trees made by steps that differ in
such numbers only have the same scopes, bindings, functions and invocations, and the same happened
in the work on them.
-/
namespace MacroExpansion

/-- A step without the textual scopes that it names. -/
def TreeStep.unplaced : TreeStep → TreeStep
  | append _ definition => append 0 definition
  | submodule _ => submodule 0
  | record invocation _ => record invocation 0
  | s => s

/-- Steps that differ in the numbers of textual scopes only. -/
def Aligned (xs ys : List TreeStep) : Prop :=
  xs.map TreeStep.unplaced = ys.map TreeStep.unplaced

namespace Aligned

variable {xs ys us vs : List TreeStep}

theorem refl (xs : List TreeStep) : Aligned xs xs := rfl

theorem append (first : Aligned xs ys) (second : Aligned us vs) :
    Aligned (xs ++ us) (ys ++ vs) := by
  unfold Aligned at *
  rw [List.map_append, List.map_append, first, second]

theorem cons {s s' : TreeStep} (same : s.unplaced = s'.unplaced) (later : Aligned xs ys) :
    Aligned (s :: xs) (s' :: ys) := by
  unfold Aligned at *
  rw [List.map_cons, List.map_cons, same, later]

theorem length_eq (h : Aligned xs ys) : xs.length = ys.length := by
  simpa using congrArg List.length h

theorem take (h : Aligned xs ys) (n : Nat) : Aligned (xs.take n) (ys.take n) := by
  unfold Aligned at *
  rw [List.map_take, List.map_take, h]

theorem opened_eq (h : Aligned xs ys) :
    xs.filterMap TreeStep.opened? = ys.filterMap TreeStep.opened? := by
  have same : TreeStep.opened? ∘ TreeStep.unplaced = TreeStep.opened? := by
    funext s
    cases s <;> rfl
  rw [← same, ← List.filterMap_map, h, List.filterMap_map]

theorem scopes_after (h : Aligned xs ys) {next other : Supply}
    (scopes : next.scopes = other.scopes) :
    (next.after xs).scopes = (other.after ys).scopes := by
  rw [Supply.scopes_after, Supply.scopes_after, h.opened_eq, scopes]

end Aligned

/-! ## Scripts -/

/-- Two walks stand at the same place of a file, maybe at other textual scopes. -/
structure Abreast (here : Standpoint) (next : Supply) (there : Standpoint) (other : Supply) :
    Prop where
  scope : here.scope = there.scope
  kind : here.kind = there.kind
  scopes : next.scopes = other.scopes

section

variable (file : String) (code : List Char)

theorem aligned_recording (context : InvocationContext) (call : MacroCall) (here there : Nat)
    (extent : Extent) :
    Aligned (Script.recording file code context call here extent)
      (Script.recording file code context call there extent) := by
  unfold Script.recording
  rcases call.invocation file code context with cause | _ | invocation <;> rfl

theorem aligned_entering {here there : Standpoint} (scope : here.scope = there.scope)
    (fresh other : Nat) (d : Option Declaration) (kind : ScopeKind) :
    Aligned (Script.entering here fresh d kind) (Script.entering there other d kind) := by
  unfold Script.entering
  rw [scope]
  exact (Aligned.refl _).append rfl

mutual

/-- The numbers of textual scopes that an item is walked at do not change what is done for it. -/
theorem aligned_item (here there : Standpoint) (next other : Supply)
    (abreast : Abreast here next there other) : ∀ i : Item,
    Aligned (Script.item file code here next i) (Script.item file code there other i)
  | .ruleSet head spelling => by
    rw [Script.item, Script.item, abreast.scope]
    cases head.definition? file code spelling <;> rfl
  | .invocation head call => by
    rw [Script.item, Script.item, abreast.scope, abreast.kind]
    apply Aligned.cons rfl
    apply aligned_recording
  | .module head spelling members => by
    rw [Script.item, Script.item, abreast.scopes]
    apply Aligned.append
    · exact aligned_entering abreast.scope _ _ _ _
    · apply aligned_items
      exact ⟨rfl, rfl, rfl⟩
  | .moduleElsewhere head spelling => by
    rw [Script.item, Script.item, abreast.scope]
    exact Aligned.refl _
  | .function head spelling body => by
    rw [Script.item, Script.item, abreast.scopes]
    apply Aligned.append _ (Aligned.refl _)
    apply Aligned.append
    · exact aligned_entering abreast.scope _ _ _ _
    · apply aligned_statements
      exact ⟨rfl, rfl, rfl⟩
  | .implementation head functions => by
    rw [Script.item, Script.item, abreast.scope]
    apply Aligned.cons rfl
    apply aligned_bodies
    exact abreast.scopes
  | .leaf head kind name => by
    rw [Script.item, Script.item, abreast.scope]
    exact Aligned.refl _
  | .raw head => by
    rw [Script.item, Script.item]
    exact Aligned.refl _
termination_by structural i => i

theorem aligned_items (here there : Standpoint) (next other : Supply)
    (abreast : Abreast here next there other) : ∀ list : List Item,
    Aligned (Script.items file code here next list) (Script.items file code there other list)
  | [] => by
    rw [Script.items, Script.items]
    exact Aligned.refl _
  | i :: rest => by
    have first := aligned_item here there next other abreast i
    have numbered := first.scopes_after abreast.scopes
    rw [Script.items, Script.items]
    apply first.append
    apply aligned_items
    exact ⟨abreast.scope, abreast.kind, numbered⟩
termination_by structural list => list

theorem aligned_statement (here there : Standpoint) (next other : Supply)
    (abreast : Abreast here next there other) : ∀ s : Statement,
    Aligned (Script.statement file code here next s) (Script.statement file code there other s)
  | .item i => by
    rw [Script.statement, Script.statement]
    exact aligned_item here there next other abreast i
  | .invocation extent place call => by
    rw [Script.statement, Script.statement, abreast.scope]
    apply Aligned.cons rfl
    apply aligned_recording
termination_by structural s => s

theorem aligned_statements (here there : Standpoint) (next other : Supply)
    (abreast : Abreast here next there other) : ∀ list : List Statement,
    Aligned (Script.statements file code here next list)
      (Script.statements file code there other list)
  | [] => by
    rw [Script.statements, Script.statements]
    exact Aligned.refl _
  | s :: rest => by
    have first := aligned_statement here there next other abreast s
    have numbered := first.scopes_after abreast.scopes
    rw [Script.statements, Script.statements]
    apply first.append
    apply aligned_statements
    exact ⟨abreast.scope, abreast.kind, numbered⟩
termination_by structural list => list

theorem aligned_bodies (scope : ScopeId) (position place : Nat) (next other : Supply)
    (scopes : next.scopes = other.scopes) : ∀ list : List (List Statement),
    Aligned (Script.bodies file code scope position next list)
      (Script.bodies file code scope place other list)
  | [] => by
    rw [Script.bodies, Script.bodies]
    exact Aligned.refl _
  | body :: rest => by
    have opening : Aligned [.addScope .block scope, .submodule position]
        [.addScope .block scope, .submodule place] := rfl
    have content : Abreast ⟨⟨next.scopes⟩, .block, next.positions⟩
        ⟨next.scopes + 1, next.positions + 1⟩ ⟨⟨other.scopes⟩, .block, other.positions⟩
        ⟨other.scopes + 1, other.positions + 1⟩ := ⟨by rw [scopes], rfl, by rw [scopes]⟩
    have first := opening.append (aligned_statements _ _ _ _ content body)
    rw [Script.bodies, Script.bodies]
    apply first.append
    exact aligned_bodies scope position place _ _ (first.scopes_after scopes) rest
termination_by structural list => list

end

end

/-! ## Trees -/

/-- Trees with the same scopes, bindings, functions and invocations; in the work on the first,
`extra` happened in addition. -/
structure SameBut (extra : List TreeEvent) (t t' : TracedTree) : Prop where
  scopes : t.tree.scopes = t'.tree.scopes
  functions : t.tree.functions = t'.tree.functions
  invocations : t.tree.invocations.map RecordedInvocation.invocation =
    t'.tree.invocations.map RecordedInvocation.invocation
  events : ∃ earlier later, t.events = earlier ++ extra ++ later ∧ t'.events = earlier ++ later

namespace SameBut

variable {extra : List TreeEvent} {t t' : TracedTree}

theorem report (h : SameBut extra t t') (event : TreeEvent) :
    SameBut extra (t.report event) (t'.report event) where
  scopes := h.scopes
  functions := h.functions
  invocations := h.invocations
  events := by
    obtain ⟨earlier, later, events, events'⟩ := h.events
    refine ⟨earlier, later ++ [event], ?_, ?_⟩
    · rw [TracedTree.report, events, List.append_assoc]
    · rw [TracedTree.report, events', List.append_assoc]

theorem declare (h : SameBut extra t t') (scope : ScopeId) (d : Declaration) :
    SameBut extra (t.declare scope d) (t'.declare scope d) := by
  unfold TracedTree.declare
  rw [h.scopes]
  split
  next scopes _ => exact ⟨rfl, h.functions, h.invocations, h.events⟩
  next cause _ => exact h.report _

theorem register (h : SameBut extra t t') (name : Ident) (body : ScopeId) :
    SameBut extra (t.register name body) (t'.register name body) := by
  unfold TracedTree.register SourceTree.functionScope?
  rw [h.functions]
  split
  next => exact h.report _
  next => exact ⟨h.scopes, rfl, h.invocations, h.events⟩

/-- The numbers of textual scopes do not matter to a step. -/
theorem step (h : SameBut extra t t') {s s' : TreeStep} (same : s.unplaced = s'.unplaced) :
    SameBut extra (t.step s) (t'.step s') := by
  cases s <;> cases s' <;> cases same
  case report event => exact h.report event
  case declare scope d => exact h.declare scope d
  case addScope kind parent =>
    refine ⟨?_, h.functions, h.invocations, h.events⟩
    exact congrArg (fun scopes : ScopeTree => (scopes.add kind parent).1) h.scopes
  case append | submodule => exact ⟨h.scopes, h.functions, h.invocations, h.events⟩
  case record position invocation place =>
    refine ⟨h.scopes, h.functions, ?_, h.events⟩
    simp only [TracedTree.step, TracedTree.record, List.map_append, h.invocations]
    rfl
  case register name body => exact h.register name body

theorem run (h : SameBut extra t t') {xs ys : List TreeStep} (aligned : Aligned xs ys) :
    SameBut extra (t.run xs) (t'.run ys) := by
  induction xs generalizing t t' ys with
  | nil =>
    obtain rfl : ys = [] := List.length_eq_zero_iff.mp aligned.length_eq.symm
    exact h
  | cons s rest ih =>
    cases ys with
    | nil => cases aligned
    | cons s' rest' =>
      obtain ⟨first, later⟩ := List.cons.inj aligned
      exact ih (h.step first) later

end SameBut

end MacroExpansion
