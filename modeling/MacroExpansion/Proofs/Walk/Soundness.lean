import MacroExpansion.Proofs.Walk.Execution

/-!
# A walk does nothing amiss

Each step of a walk is taken in a tree that has what the step asks for: names are declared and
scopes are made in scopes that exist, a context names a scope of its kind, and what is registered
under the name of a function is a block. No step reports a refusal; only declaring does so.
-/
namespace MacroExpansion

/-- The scope that a context names exists and is of the kind it is named as. -/
def InvocationContext.Names (scopes : ScopeTree) : InvocationContext → Prop
  | module scope => scopes.kind? scope = some .module
  | block scope => scopes.kind? scope = some .block
  | expression => True

theorem MacroCall.context_of_invocation {call : MacroCall} {file : String} {code : List Char}
    {context : InvocationContext} {invocation : MacroInvocation}
    (h : call.invocation file code context = .ok (some invocation)) :
    invocation.context = context := by
  unfold MacroCall.invocation at h
  split at h
  · cases h
  · split at h <;> cases h
    rfl

/-- The tree has what a step asks for. -/
def TreeStep.Sound (t : TracedTree) : TreeStep → Prop
  | report event => event.refusal? = none
  | declare scope _ => ∃ kind, t.tree.scopes.kind? scope = some kind
  | addScope _ parent => ∃ kind, t.tree.scopes.kind? parent = some kind
  | record invocation _ => invocation.context.Names t.tree.scopes
  | register _ body => t.tree.scopes.kind? body = some .block
  | append _ _ | submodule _ => True

namespace TracedTree

/-- Every step finds what it asks for in the tree that the steps before it made. -/
def Sound (t : TracedTree) : List TreeStep → Prop
  | [] => True
  | s :: rest => s.Sound t ∧ (t.step s).Sound rest

variable {t : TracedTree} {here : Standpoint} {file : String} {code : List Char}

theorem sound_append {xs ys : List TreeStep} :
    t.Sound (xs ++ ys) ↔ t.Sound xs ∧ (t.run xs).Sound ys := by
  induction xs generalizing t with
  | nil => simp [Sound]
  | cons s rest ih => rw [List.cons_append, Sound, Sound, ih, run_cons, and_assoc]

/-- At any moment of a sound run, the next step finds what it asks for. -/
theorem Sound.at {steps before after : List TreeStep} {s : TreeStep} (h : t.Sound steps)
    (split : steps = before ++ s :: after) : s.Sound (t.run before) := by
  rw [split, sound_append] at h
  exact h.2.1

theorem sound_declaring {scope : ScopeId} {kind : ScopeKind}
    (standing : t.tree.scopes.kind? scope = some kind) (d : Option Declaration) :
    t.Sound (Script.declaring scope d) := by
  cases d with
  | none => trivial
  | some d => exact ⟨⟨kind, standing⟩, trivial⟩

theorem sound_entering (standing : t.tree.scopes.kind? here.scope = some here.kind) (fresh : Nat)
    (d : Option Declaration) (kind : ScopeKind) :
    t.Sound (Script.entering here fresh d kind) := by
  have still := kind?_run standing (Script.declaring here.scope d)
  rw [Script.entering, sound_append]
  exact ⟨sound_declaring standing d, trivial, ⟨_, still⟩, trivial, trivial⟩

theorem sound_recording {context : InvocationContext} (names : context.Names t.tree.scopes)
    (call : MacroCall) (position : Nat) (extent : Extent) :
    t.Sound (Script.recording file code context call position extent) := by
  unfold Script.recording
  rcases found : call.invocation file code context with cause | _ | invocation
  · exact ⟨rfl, trivial⟩
  · trivial
  · refine ⟨rfl, ?_, trivial⟩
    rw [TreeStep.Sound, MacroCall.context_of_invocation found]
    exact names

/-- The context of an invocation in place of an item names the scope that the walk stands in. -/
theorem names_itemContext (standing : t.tree.scopes.kind? here.scope = some here.kind) :
    (here.kind.itemContext here.scope).Names t.tree.scopes := by
  obtain ⟨scope, kind, position⟩ := here
  cases kind <;> exact standing

mutual

theorem sound_item (code : List Char) (here : Standpoint) (t : TracedTree)
    (standing : t.tree.scopes.kind? here.scope = some here.kind) : ∀ i : Item,
    t.Sound (Script.item t.tree.file code here t.supply i)
  | .ruleSet head spelling => by
    rw [Script.item]
    cases head.definition? t.tree.file code spelling with
    | none => exact ⟨rfl, trivial⟩
    | some definition =>
      exact ⟨rfl, ⟨here.kind, standing⟩, trivial, trivial⟩
  | .invocation head call => by
    rw [Script.item]
    exact ⟨trivial, sound_recording (t := t.step (.append here.position none))
      (names_itemContext standing) call _ head.extent⟩
  | .module head spelling members => by
    have content := sound_items code ⟨⟨t.supply.scopes⟩, .module, t.supply.positions + 1⟩ _
      (t.kind?_entering here ((Item.module head spelling members).declaration? t.tree.file) .module)
      members
    rw [supply_entering, file_run] at content
    rw [Script.item, sound_append]
    exact ⟨sound_entering standing _ _ _, content⟩
  | .moduleElsewhere head spelling => by
    rw [Script.item, sound_append]
    exact ⟨sound_declaring standing _, rfl, trivial⟩
  | .function head spelling body => by
    have entered := t.kind?_entering here
      ((Item.function head spelling body).declaration? t.tree.file) .block
    have content := sound_statements code ⟨⟨t.supply.scopes⟩, .block, t.supply.positions + 1⟩ _
      entered rfl body
    rw [supply_entering, file_run] at content
    rw [Script.item, sound_append, sound_append, run_append]
    exact ⟨⟨sound_entering standing _ _ _, content⟩, kind?_run entered _, trivial⟩
  | .implementation head functions => by
    have content := sound_bodies code here.scope here.kind t.supply.positions
      (t.step (.append here.position none)) standing functions
    rw [file_step, supply_step] at content
    rw [Script.item]
    exact ⟨trivial, content⟩
  | .leaf head kind name => by
    rw [Script.item]
    exact sound_declaring standing _
  | .raw head => by
    rw [Script.item]
    trivial
termination_by structural i => i

theorem sound_items (code : List Char) (here : Standpoint) (t : TracedTree)
    (standing : t.tree.scopes.kind? here.scope = some here.kind) : ∀ list : List Item,
    t.Sound (Script.items t.tree.file code here t.supply list)
  | [] => by
    rw [Script.items]
    trivial
  | i :: rest => by
    have later := sound_items code
      { here with position := Script.afterItem t.tree.file code here t.supply.positions i }
      _ (kind?_run standing (Script.item t.tree.file code here t.supply i)) rest
    rw [file_run, supply_run] at later
    rw [Script.items, sound_append]
    exact ⟨sound_item code here t standing i, later⟩
termination_by structural list => list

theorem sound_statement (code : List Char) (here : Standpoint) (t : TracedTree)
    (standing : t.tree.scopes.kind? here.scope = some here.kind) (body : here.kind = .block) :
    ∀ s : Statement, t.Sound (Script.statement t.tree.file code here t.supply s)
  | .item i => by
    rw [Script.statement]
    exact sound_item code here t standing i
  | .invocation extent place call => by
    have names : (place.context here.scope).Names t.tree.scopes := by
      rw [body] at standing
      cases place with
      | statement => exact standing
      | initializer | tail => trivial
    rw [Script.statement]
    exact ⟨trivial, sound_recording (t := t.step (.append here.position none)) names call _ extent⟩
termination_by structural s => s

theorem sound_statements (code : List Char) (here : Standpoint) (t : TracedTree)
    (standing : t.tree.scopes.kind? here.scope = some here.kind) (body : here.kind = .block) :
    ∀ list : List Statement, t.Sound (Script.statements t.tree.file code here t.supply list)
  | [] => by
    rw [Script.statements]
    trivial
  | s :: rest => by
    have later := sound_statements code
      { here with position := Script.afterStatement t.tree.file code here t.supply.positions s }
      _ (kind?_run standing (Script.statement t.tree.file code here t.supply s)) body rest
    rw [file_run, supply_run] at later
    rw [Script.statements, sound_append]
    exact ⟨sound_statement code here t standing body s, later⟩
termination_by structural list => list

theorem sound_bodies (code : List Char) (scope : ScopeId) (kind : ScopeKind) (position : Nat)
    (t : TracedTree) (standing : t.tree.scopes.kind? scope = some kind) :
    ∀ list : List (List Statement),
    t.Sound (Script.bodies t.tree.file code scope position t.supply list)
  | [] => by
    rw [Script.bodies]
    trivial
  | body :: rest => by
    have inner := sound_statements code ⟨⟨t.supply.scopes⟩, .block, t.supply.positions⟩
      (t.run [.addScope .block scope, .submodule position])
      (kind?_run (t.kind?_addScope .block scope) [_]) rfl body
    have later := sound_bodies code scope kind position _ (kind?_run standing
      ([.addScope .block scope, .submodule position] ++
        Script.statements t.tree.file code ⟨⟨t.supply.scopes⟩, .block, t.supply.positions⟩
          ⟨t.supply.scopes + 1, t.supply.positions + 1⟩ body)) rest
    rw [file_run, supply_run] at inner later
    rw [Script.bodies, sound_append, sound_append]
    exact ⟨⟨⟨⟨kind, standing⟩, trivial, trivial⟩, inner⟩, later⟩
termination_by structural list => list

end

end TracedTree

/-- The walk of a file is sound. -/
theorem SourceTree.sound_ofFile (file : String) (code : List Char) (content : List Item) :
    TracedTree.Sound ⟨empty file, [.parsing file]⟩ (Script.ofFile file code content) := by
  rw [Script.ofFile, TracedTree.sound_append]
  exact ⟨TracedTree.sound_items code ⟨ScopeTree.root, .module, 0⟩ ⟨empty file, [.parsing file]⟩ rfl
    content, rfl, trivial⟩

end MacroExpansion
