import MacroExpansion.Proofs.Walk.Effects

/-!
# A script follows the outline

The scopes that a script makes are the regions of what is walked, in their order. The names that it
binds and the invocations that it records are those of the outline, in source order and each in the
region that holds it.
-/
namespace MacroExpansion

/-- What something placed declares, with its region. -/
def Placed.declared? (p : Placed) (file : String) (code : List Char) :
    Option (ScopeId × Declaration) :=
  (p.declaration? file code).map fun declaration => (p.scope, declaration)

theorem Supply.scopes_after (next : Supply) (steps : List TreeStep) :
    (next.after steps).scopes = next.scopes + (steps.filterMap TreeStep.opened?).length := by
  induction steps generalizing next with
  | nil => rfl
  | cons s rest ih =>
    rw [after_cons, ih, List.filterMap_cons]
    cases s <;> simp only [step, TreeStep.opened?, List.length_cons]
    omega

/-- The steps make these regions, and do what these placed items and statements ask for. -/
structure Follows (file : String) (code : List Char) (steps : List TreeStep)
    (regions : List Region) (placed : List Placed) : Prop where
  opened : steps.filterMap TreeStep.opened? = regions.map fun r => (r.kind, r.parent)
  declared : steps.filterMap TreeStep.declared? =
    placed.filterMap fun p => p.declared? file code
  recorded : (steps.filterMap TreeStep.recorded?).map RecordedInvocation.invocation =
    placed.filterMap fun p => p.invocation? file code

namespace Follows

variable {file : String} {code : List Char}

theorem nil : Follows file code [] [] [] := ⟨rfl, rfl, rfl⟩

theorem append {xs ys : List TreeStep} {rs ss : List Region} {ps qs : List Placed}
    (first : Follows file code xs rs ps) (second : Follows file code ys ss qs) :
    Follows file code (xs ++ ys) (rs ++ ss) (ps ++ qs) where
  opened := by rw [List.filterMap_append, List.map_append, first.opened, second.opened]
  declared := by rw [List.filterMap_append, List.filterMap_append, first.declared, second.declared]
  recorded := by
    rw [List.filterMap_append, List.filterMap_append, List.map_append, first.recorded,
      second.recorded]

/-- The numbers left after the steps are those left after the regions. -/
theorem scopes_after {steps : List TreeStep} {regions : List Region} {placed : List Placed}
    (h : Follows file code steps regions placed) (next : Supply) :
    (next.after steps).scopes = next.scopes + regions.length := by
  rw [Supply.scopes_after, h.opened, List.length_map]

/-- The numbers left after a body are those left after its region and those within it. -/
theorem scopes_after_body {steps : List TreeStep} {regions : List Region} {placed : List Placed}
    (h : Follows file code steps regions placed) (next : Supply) (scope : ScopeId)
    (position : Nat) :
    (next.after ([.addScope .block scope, .submodule position] ++ steps)).scopes =
      next.scopes + 1 + regions.length := by
  rw [Supply.after_append, h.scopes_after]
  rfl

/-- One item or statement that makes no region. -/
theorem single {steps : List TreeStep} {p : Placed}
    (opened : steps.filterMap TreeStep.opened? = [])
    (declared : steps.filterMap TreeStep.declared? = (p.declared? file code).toList)
    (recorded : (steps.filterMap TreeStep.recorded?).map RecordedInvocation.invocation =
      (p.invocation? file code).toList) : Follows file code steps [] [p] where
  opened := opened
  declared := by
    rw [declared]
    cases found : p.declared? file code <;> simp [found]
  recorded := by
    rw [recorded]
    cases found : p.invocation? file code <;> simp [found]

/-- An item that declares a name and holds nothing. -/
theorem declaring {p : Placed} {scope : ScopeId} {declaration : Option Declaration}
    (same : p.declared? file code = declaration.map fun d => (scope, d))
    (nothing : p.invocation? file code = none) :
    Follows file code (Script.declaring scope declaration) [] [p] := by
  cases declaration with
  | none => exact single rfl (by rw [same]; rfl) (by rw [nothing]; rfl)
  | some d => exact single rfl (by rw [same]; rfl) (by rw [nothing]; rfl)

/-- A call, `here` being the textual scope made for it. -/
theorem recording {p : Placed} {context : InvocationContext} {call : MacroCall} {here : Nat}
    {extent : Extent}
    (same : p.invocation? file code = (call.invocation file code context).toOption.join)
    (nothing : p.declared? file code = none) :
    Follows file code (Script.recording file code context call here extent) [] [p] := by
  unfold Script.recording
  rcases found : call.invocation file code context with cause | _ | invocation <;>
    rw [found] at same <;>
    exact single rfl (by rw [nothing]; rfl) (by rw [same]; rfl)

/-- An item that declares a name and whose content is a region. -/
theorem entering {p : Placed} {here : Standpoint} {fresh : Nat} {declaration : Option Declaration}
    {kind : ScopeKind} {members : List Statement}
    (same : p.declared? file code = declaration.map fun d => (here.scope, d))
    (nothing : p.invocation? file code = none) :
    Follows file code (Script.entering here fresh declaration kind)
      [⟨kind, some here.scope, members⟩] [p] := by
  have opening : Follows file code
      [.append here.position none, .addScope kind here.scope, .submodule fresh]
      [⟨kind, some here.scope, members⟩] [] := ⟨rfl, rfl, rfl⟩
  exact (declaring same nothing).append opening

/-- Making a textual scope does nothing that an outline tells. -/
theorem cons_append {steps : List TreeStep} {regions : List Region} {placed : List Placed}
    (h : Follows file code steps regions placed) (position : Nat)
    (definition : Option MacroDefinition) :
    Follows file code (.append position definition :: steps) regions placed :=
  ⟨h.opened, h.declared, h.recorded⟩

end Follows

section

variable (file : String) (code : List Char)

mutual

theorem follows_item (here : Standpoint) (next : Supply) (levels : List (List Statement)) :
    ∀ i : Item, Follows file code (Script.item file code here next i)
      (Regions.item here.scope next.scopes i)
      (Outline.item here.scope here.kind next.scopes levels i)
  | .ruleSet head spelling => by
    simp only [Script.item, Regions.item, Outline.item]
    cases found : head.definition? file code spelling <;>
      refine .single rfl ?_ rfl <;> simp only [Placed.declared?, Placed.declaration?, found] <;> rfl
  | .invocation head call => by
    simp only [Script.item, Regions.item, Outline.item]
    exact (Follows.recording rfl rfl).cons_append _ _
  | .module head spelling members => by
    rw [Script.item, Regions.item, Outline.item]
    exact (Follows.entering rfl rfl).append (follows_items _ _ _ _ members)
  | .moduleElsewhere head spelling => by
    have skipped : Follows file code [.report (.skippedModule spelling)] [] [] := ⟨rfl, rfl, rfl⟩
    have declares : Follows file code (Script.declaring here.scope
        ((Item.moduleElsewhere head spelling).declaration? file)) []
        [⟨here.scope, here.kind, levels, .item (.moduleElsewhere head spelling)⟩] :=
      .declaring rfl rfl
    simp only [Script.item, Regions.item, Outline.item]
    exact declares.append skipped
  | .function head spelling body => by
    have content := follows_statements ⟨⟨next.scopes⟩, .block, next.positions + 1⟩
      ⟨next.scopes + 1, next.positions + 2⟩ [] levels body
    have registered : Follows file code [.register (.ofSpelling spelling) ⟨next.scopes⟩] [] [] :=
      ⟨rfl, rfl, rfl⟩
    have entered : Follows file code (Script.entering here next.positions
        ((Item.function head spelling body).declaration? file) .block)
        [⟨.block, some here.scope, body⟩]
        [⟨here.scope, here.kind, levels, .item (.function head spelling body)⟩] :=
      .entering rfl rfl
    have all := (entered.append content).append registered
    rw [List.append_nil, List.append_nil] at all
    rw [Script.item, Regions.item, Outline.item]
    exact all
  | .implementation head functions => by
    have made : Follows file code [.append here.position none] []
      [⟨here.scope, here.kind, levels, .item (.implementation head functions)⟩] := ⟨rfl, rfl, rfl⟩
    rw [Script.item, Regions.item, Outline.item]
    exact made.append (follows_bodies here.scope next.positions
      ⟨next.scopes, next.positions + 1⟩ levels functions)
  | .leaf head kind name => by
    simp only [Script.item, Regions.item, Outline.item]
    exact .declaring rfl rfl
  | .raw head => by
    simp only [Script.item, Regions.item, Outline.item]
    exact .single rfl rfl rfl
termination_by structural i => i

theorem follows_items (here : Standpoint) (next : Supply) (before : List Statement)
    (outer : List (List Statement)) : ∀ list : List Item,
    Follows file code (Script.items file code here next list)
      (Regions.items here.scope next.scopes list)
      (Outline.items here.scope here.kind next.scopes before outer list)
  | [] => by
    rw [Script.items, Regions.items, Outline.items]
    exact .nil
  | i :: rest => by
    have first := follows_item here next (before :: outer) i
    have later := follows_items
      { here with position := Script.afterItem file code here next.positions i }
      (next.after (Script.item file code here next i)) (before ++ [.item i]) outer rest
    rw [first.scopes_after] at later
    rw [Script.items, Regions.items, Outline.items]
    exact first.append later
termination_by structural list => list

theorem follows_statement (here : Standpoint) (next : Supply) (levels : List (List Statement)) :
    ∀ s : Statement, Follows file code (Script.statement file code here next s)
      (Regions.statement here.scope next.scopes s)
      (Outline.statement here.scope here.kind next.scopes levels s)
  | .item i => by
    rw [Script.statement, Regions.statement, Outline.statement]
    exact follows_item here next levels i
  | .invocation extent place call => by
    rw [Script.statement, Regions.statement, Outline.statement]
    exact (Follows.recording rfl rfl).cons_append _ _
termination_by structural s => s

theorem follows_statements (here : Standpoint) (next : Supply) (before : List Statement)
    (outer : List (List Statement)) : ∀ list : List Statement,
    Follows file code (Script.statements file code here next list)
      (Regions.statements here.scope next.scopes list)
      (Outline.statements here.scope here.kind next.scopes before outer list)
  | [] => by
    rw [Script.statements, Regions.statements, Outline.statements]
    exact .nil
  | s :: rest => by
    have first := follows_statement here next (before :: outer) s
    have later := follows_statements
      { here with position := Script.afterStatement file code here next.positions s }
      (next.after (Script.statement file code here next s)) (before ++ [s]) outer rest
    rw [first.scopes_after] at later
    rw [Script.statements, Regions.statements, Outline.statements]
    exact first.append later
termination_by structural list => list

theorem follows_bodies (scope : ScopeId) (position : Nat) (next : Supply)
    (outer : List (List Statement)) : ∀ list : List (List Statement),
    Follows file code (Script.bodies file code scope position next list)
      (Regions.bodies scope next.scopes list) (Outline.bodies next.scopes outer scope list)
  | [] => by
    rw [Script.bodies, Regions.bodies, Outline.bodies]
    exact .nil
  | body :: rest => by
    have opening : Follows file code [.addScope .block scope, .submodule position]
      [⟨.block, some scope, body⟩] [] := ⟨rfl, rfl, rfl⟩
    have inner := follows_statements
      ⟨⟨next.scopes⟩, .block, next.positions⟩ ⟨next.scopes + 1, next.positions + 1⟩ [] outer body
    have later := follows_bodies scope position
      (next.after ([.addScope .block scope, .submodule position] ++
        Script.statements file code ⟨⟨next.scopes⟩, .block, next.positions⟩
          ⟨next.scopes + 1, next.positions + 1⟩ body)) outer rest
    rw [inner.scopes_after_body] at later
    rw [Script.bodies, Regions.bodies, Outline.bodies]
    exact (opening.append inner).append later
termination_by structural list => list

end

/-- The script of a file makes its regions, the root apart, and does what its outline asks for. -/
theorem follows_ofFile (content : List Item) :
    Follows file code (Script.ofFile file code content)
      (Regions.items ScopeTree.root 1 content) (Outline.ofFile content) := by
  have walked : Follows file code [.report (.walked file)] [] [] := ⟨rfl, rfl, rfl⟩
  have all := (follows_items file code ⟨ScopeTree.root, .module, 0⟩ ⟨1, 1⟩ [] [] content).append
    walked
  rw [List.append_nil, List.append_nil] at all
  exact all

end

end MacroExpansion
