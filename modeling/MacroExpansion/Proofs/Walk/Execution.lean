import MacroExpansion.Proofs.Walk.Effects

/-!
# A walk carries out its script

Walking items, statements or bodies gives the tree that the steps of their script give, and comes
out at the textual position that the script tells. The script asks nothing of a tree but where the
walk stands in it and what the next numbers are.
-/
namespace MacroExpansion

theorem Supply.after_declaring (next : Supply) (scope : ScopeId) (d : Option Declaration) :
    next.after (Script.declaring scope d) = next := by
  cases d <;> rfl

theorem Supply.after_entering (next : Supply) (here : Standpoint) (fresh : Nat)
    (d : Option Declaration) (kind : ScopeKind) :
    next.after (Script.entering here fresh d kind) = ⟨next.scopes + 1, next.positions + 2⟩ := by
  rw [Script.entering, after_append, after_declaring]
  rfl

namespace TracedTree

variable (t : TracedTree)

theorem declareItem_eq_run (scope : ScopeId) (i : Item) :
    t.declareItem scope i = t.run (Script.declaring scope (i.declaration? t.tree.file)) := by
  unfold declareItem Script.declaring
  cases i.declaration? t.tree.file <;> rfl

theorem append_eq_step (position : Nat) (definition : Option MacroDefinition) :
    t.append position definition =
      (t.step (.append position definition), t.supply.positions) := rfl

theorem enter_eq_run (kind : ScopeKind) (parent : ScopeId) (position : Nat) :
    t.enter kind parent position =
      (t.run [.addScope kind parent, .submodule position], ⟨t.supply.scopes⟩,
        t.supply.positions) := rfl

theorem itemContext_eq {t : TracedTree} {here : Standpoint}
    (standing : t.tree.scopes.kind? here.scope = some here.kind) :
    t.tree.scopes.itemContext here.scope = here.kind.itemContext here.scope := by
  unfold ScopeTree.itemContext
  rw [standing]
  cases here.kind <;> rfl

/-- A step that makes no scope and no textual scope leaves the numbers as they are. -/
theorem supply_declaring (scope : ScopeId) (d : Option Declaration) :
    (t.run (Script.declaring scope d)).supply = t.supply := by
  rw [supply_run, Supply.after_declaring]

theorem supply_entering (here : Standpoint) (d : Option Declaration) (kind : ScopeKind) :
    (t.run (Script.entering here t.supply.positions d kind)).supply =
      ⟨t.supply.scopes + 1, t.supply.positions + 2⟩ := by
  rw [supply_run, Supply.after_entering]

theorem kind?_addScope (kind : ScopeKind) (parent : ScopeId) :
    (t.step (.addScope kind parent)).tree.scopes.kind? ⟨t.supply.scopes⟩ = some kind := by
  rw [ScopeTree.kind?_eq, shape_step]
  simp [TreeStep.opened?, supply]

/-- The scope that is entered is of the kind it is entered as. -/
theorem kind?_entering (here : Standpoint) (d : Option Declaration) (kind : ScopeKind) :
    (t.run (Script.entering here t.supply.positions d kind)).tree.scopes.kind?
      ⟨t.supply.scopes⟩ = some kind := by
  have same : ((t.run (Script.declaring here.scope d)).step
      (.append here.position none)).supply.scopes = t.supply.scopes := by
    rw [supply_step, supply_declaring]
    rfl
  rw [Script.entering, run_append, run_cons, run_cons, ← same]
  exact kind?_run (kind?_addScope _ kind here.scope) [_]

mutual

theorem walkItem_eq_run (code : List Char) (here : Standpoint) (t : TracedTree)
    (standing : t.tree.scopes.kind? here.scope = some here.kind) : ∀ i : Item,
    t.walkItem code here.scope here.position i =
      (t.run (Script.item t.tree.file code here t.supply i),
        Script.afterItem t.tree.file code here t.supply.positions i)
  | .ruleSet head spelling => by
    rw [walkItem, Script.item, Script.afterItem]
    cases found : head.definition? t.tree.file code spelling with
    | none => rfl
    | some definition =>
      have same : ((t.step (.report (.foundDefinition definition.name))).step
          (.declare here.scope definition.declaration)).supply = t.supply := by
        rw [supply_step, supply_step]
        rfl
      rw [← same]
      rfl
  | .invocation head call => by
    have context : (t.step (.append here.position none)).tree.scopes.itemContext here.scope =
        here.kind.itemContext here.scope := itemContext_eq standing
    rw [walkItem, Script.item, Script.afterItem]
    simp only [append_eq_step, recordCall, file_step, Script.recording, context]
    rcases call.invocation t.tree.file code (here.kind.itemContext here.scope) with
      cause | _ | invocation <;> rfl
  | .module head spelling members => by
    have ih := walkItems_eq_run code ⟨⟨t.supply.scopes⟩, .module, t.supply.positions + 1⟩ _
      (t.kind?_entering here ((Item.module head spelling members).declaration? t.tree.file) .module)
      members
    rw [supply_entering, file_run] at ih
    rw [walkItem, Script.item, Script.afterItem, run_append, ← ih, declareItem_eq_run]
    simp only [append_eq_step, enter_eq_run, Script.entering, run_append, run_cons, run_nil,
      supply_step, supply_declaring, Supply.step]
  | .moduleElsewhere head spelling => by
    rw [walkItem, Script.item, Script.afterItem, declareItem_eq_run, run_append]
    rfl
  | .function head spelling body => by
    have ih := walkStatements_eq_run code ⟨⟨t.supply.scopes⟩, .block, t.supply.positions + 1⟩ _
      (t.kind?_entering here ((Item.function head spelling body).declaration? t.tree.file) .block)
      body
    rw [supply_entering, file_run] at ih
    rw [walkItem, Script.item, Script.afterItem, run_append, run_append, ← ih, declareItem_eq_run]
    simp only [append_eq_step, enter_eq_run, Script.entering, run_append, run_cons, run_nil,
      supply_step, supply_declaring, Supply.step]
    rfl
  | .implementation head functions => by
    have ih := walkBodies_eq_run code here.scope t.supply.positions
      (t.step (.append here.position none)) functions
    rw [file_step, supply_step] at ih
    rw [walkItem, Script.item, Script.afterItem, run_cons]
    simp only [append_eq_step, ih, Supply.step]
  | .leaf head kind name => by
    rw [walkItem, Script.item, Script.afterItem, declareItem_eq_run]
  | .raw head => by
    rw [walkItem, Script.item, Script.afterItem]
    rfl

theorem walkItems_eq_run (code : List Char) (here : Standpoint) (t : TracedTree)
    (standing : t.tree.scopes.kind? here.scope = some here.kind) : ∀ list : List Item,
    t.walkItems code here.scope here.position list =
      t.run (Script.items t.tree.file code here t.supply list)
  | [] => by
    rw [walkItems, Script.items, run_nil]
  | i :: rest => by
    have ih := walkItems_eq_run code
      { here with position := Script.afterItem t.tree.file code here t.supply.positions i }
      _ (kind?_run standing (Script.item t.tree.file code here t.supply i)) rest
    rw [file_run, supply_run] at ih
    rw [walkItems, Script.items, walkItem_eq_run code here t standing i, run_append, ← ih]

theorem walkStatement_eq_run (code : List Char) (here : Standpoint) (t : TracedTree)
    (standing : t.tree.scopes.kind? here.scope = some here.kind) : ∀ s : Statement,
    t.walkStatement code here.scope here.position s =
      (t.run (Script.statement t.tree.file code here t.supply s),
        Script.afterStatement t.tree.file code here t.supply.positions s)
  | .item i => by
    rw [walkStatement, Script.statement, Script.afterStatement,
      walkItem_eq_run code here t standing]
  | .invocation extent place call => by
    rw [walkStatement, Script.statement, Script.afterStatement]
    simp only [append_eq_step, recordCall, file_step, Script.recording]
    rcases call.invocation t.tree.file code (place.context here.scope) with
      cause | _ | invocation <;> rfl

theorem walkStatements_eq_run (code : List Char) (here : Standpoint) (t : TracedTree)
    (standing : t.tree.scopes.kind? here.scope = some here.kind) : ∀ list : List Statement,
    t.walkStatements code here.scope here.position list =
      t.run (Script.statements t.tree.file code here t.supply list)
  | [] => by
    rw [walkStatements, Script.statements, run_nil]
  | s :: rest => by
    have ih := walkStatements_eq_run code
      { here with position := Script.afterStatement t.tree.file code here t.supply.positions s }
      _ (kind?_run standing (Script.statement t.tree.file code here t.supply s)) rest
    rw [file_run, supply_run] at ih
    rw [walkStatements, Script.statements, walkStatement_eq_run code here t standing s, run_append,
      ← ih]

theorem walkBodies_eq_run (code : List Char) (scope : ScopeId) (position : Nat)
    (t : TracedTree) : ∀ list : List (List Statement),
    t.walkBodies code scope position list =
      t.run (Script.bodies t.tree.file code scope position t.supply list)
  | [] => by
    rw [walkBodies, Script.bodies, run_nil]
  | body :: rest => by
    have inner := walkStatements_eq_run code ⟨⟨t.supply.scopes⟩, .block, t.supply.positions⟩
      (t.run [.addScope .block scope, .submodule position])
      (kind?_run (t.kind?_addScope .block scope) [_]) body
    have ih := walkBodies_eq_run code scope position
      (t.run ([.addScope .block scope, .submodule position] ++
        Script.statements t.tree.file code ⟨⟨t.supply.scopes⟩, .block, t.supply.positions⟩
          ⟨t.supply.scopes + 1, t.supply.positions + 1⟩ body)) rest
    rw [file_run, supply_run] at inner ih
    rw [walkBodies, Script.bodies, run_append, ← ih, run_append]
    simp only [enter_eq_run]
    exact congrArg (fun made => made.walkBodies code scope position rest) inner

end

end TracedTree

namespace SourceTree

/-- The tree of some items is what their script makes of an empty one. -/
theorem ofItems_eq_run (file : String) (code : List Char) (content : List Item) :
    ofItems file code content =
      TracedTree.run ⟨empty file, [.parsing file]⟩ (Script.ofFile file code content) := by
  have walked := TracedTree.walkItems_eq_run code ⟨ScopeTree.root, .module, 0⟩
    ⟨empty file, [.parsing file]⟩ rfl content
  rw [ofItems, Script.ofFile, TracedTree.run_append]
  exact congrArg (fun made => made.report (.walked file)) walked

theorem expansions_ofItems (file : String) (code : List Char) (content : List Item) :
    (ofItems file code content).tree.expansions = none := by
  rw [ofItems_eq_run, TracedTree.expansions_run]
  rfl

theorem textual_ofItems (file : String) (code : List Char) (content : List Item) :
    (ofItems file code content).tree.textual =
      TextualScopes.empty.run (Script.ofFile file code content) := by
  rw [ofItems_eq_run, TracedTree.textual_run]
  rfl

theorem invocations_ofItems (file : String) (code : List Char) (content : List Item) :
    (ofItems file code content).tree.invocations =
      (Script.ofFile file code content).filterMap TreeStep.recorded? := by
  rw [ofItems_eq_run, TracedTree.invocations_run]
  rfl

end SourceTree

end MacroExpansion
