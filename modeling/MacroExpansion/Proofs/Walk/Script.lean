import MacroExpansion.Proofs.Walk.Outline

/-!
# The steps of a walk

A walk is a sequence of elementary steps, each of which does one thing to the tree. The script of an
item is that sequence, told from the item, from where it stands and from the numbers that the next
scope and the next textual scope will get. Main statement: walking items carries out their script,
and the textual position that it comes out at is the one told. What a walk does at some moment can
so be said of its script.
-/
namespace MacroExpansion

/-- One thing done to a tree. -/
inductive TreeStep where
  | report (event : TreeEvent)
  | declare (scope : ScopeId) (declaration : Declaration)
  | addScope (kind : ScopeKind) (parent : ScopeId)
  | append (position : Nat) (definition : Option MacroDefinition)
  | submodule (position : Nat)
  | record (invocation : MacroInvocation) (position : Nat)
  | register (name : Ident) (body : ScopeId)

namespace TracedTree

def step (t : TracedTree) : TreeStep → TracedTree
  | .report event => t.report event
  | .declare scope declaration => t.declare scope declaration
  | .addScope kind parent => (t.addScope kind parent).1
  | .append position definition => (t.append position definition).1
  | .submodule position => (t.submodule position).1
  | .record invocation position => t.record invocation position
  | .register name body => t.register name body

def run (t : TracedTree) (steps : List TreeStep) : TracedTree :=
  steps.foldl step t

@[simp] theorem run_nil (t : TracedTree) : t.run [] = t := rfl

@[simp] theorem run_cons (t : TracedTree) (s : TreeStep) (steps : List TreeStep) :
    t.run (s :: steps) = (t.step s).run steps := rfl

theorem run_append (t : TracedTree) (xs ys : List TreeStep) :
    t.run (xs ++ ys) = (t.run xs).run ys := by
  simp [run]

end TracedTree

/-- The numbers that the next scope and the next textual scope get. -/
structure Supply where
  scopes : Nat
  positions : Nat
  deriving DecidableEq, Repr

namespace Supply

def step (next : Supply) : TreeStep → Supply
  | .addScope _ _ => ⟨next.scopes + 1, next.positions⟩
  | .append _ _ | .submodule _ => ⟨next.scopes, next.positions + 1⟩
  | _ => next

/-- The numbers that are left after some steps. -/
def after (next : Supply) (steps : List TreeStep) : Supply :=
  steps.foldl step next

@[simp] theorem after_nil (next : Supply) : next.after [] = next := rfl

@[simp] theorem after_cons (next : Supply) (s : TreeStep) (steps : List TreeStep) :
    next.after (s :: steps) = (next.step s).after steps := rfl

theorem after_append (next : Supply) (xs ys : List TreeStep) :
    next.after (xs ++ ys) = (next.after xs).after ys := by
  simp [after]

end Supply

def TracedTree.supply (t : TracedTree) : Supply :=
  ⟨t.tree.scopes.size, t.tree.textual.size⟩

/-- Where a walk stands. -/
structure Standpoint where
  scope : ScopeId
  kind : ScopeKind
  position : Nat
  deriving DecidableEq, Repr

namespace Script

variable (file : String) (code : List Char)

def declaring (scope : ScopeId) (declaration : Option Declaration) : List TreeStep :=
  declaration.toList.map (.declare scope)

/-- The steps up to the content of an item that makes a region; `fresh` is the textual scope that it
leaves behind. -/
def entering (here : Standpoint) (fresh : Nat) (declaration : Option Declaration)
    (kind : ScopeKind) : List TreeStep :=
  declaring here.scope declaration ++
    [.append here.position none, .addScope kind here.scope, .submodule fresh]

/-- What is done with a call once the textual scope `here` was made for it. -/
def recording (context : InvocationContext) (call : MacroCall) (here : Nat) (extent : Extent) :
    List TreeStep :=
  match call.invocation file code context with
  | .error cause => [.report (.leftOut (extent.spanIn file) cause)]
  | .ok none => []
  | .ok (some invocation) => [.report (.foundInvocation invocation), .record invocation here]

/-- The textual position after an item, `fresh` being the next textual scope. -/
def afterItem (here : Standpoint) (fresh : Nat) : Item → Nat
  | .ruleSet head spelling =>
    if (head.definition? file code spelling).isSome then fresh else here.position
  | .invocation _ call =>
    match call.invocation file code (here.kind.itemContext here.scope) with
    | .ok _ => fresh
    | .error _ => here.position
  | .module _ _ _ | .function _ _ _ | .implementation _ _ => fresh
  | .moduleElsewhere _ _ | .leaf _ _ _ | .raw _ => here.position

/-- The textual position after a statement. -/
def afterStatement (here : Standpoint) (fresh : Nat) : Statement → Nat
  | .item i => afterItem file code here fresh i
  | .invocation _ _ _ => fresh

mutual

/-- The steps of walking an item. -/
def item (here : Standpoint) (next : Supply) : Item → List TreeStep
  | .ruleSet head spelling =>
    match head.definition? file code spelling with
    | some definition =>
      [.report (.foundDefinition definition.name), .declare here.scope definition.declaration,
        .append here.position (some definition)]
    | none => [.report (.leftOut (head.extent.spanIn file) .definition)]
  | .invocation head call =>
    .append here.position none ::
      recording file code (here.kind.itemContext here.scope) call next.positions head.extent
  | .module head spelling members =>
    entering here next.positions ((Item.module head spelling members).declaration? file) .module ++
      items ⟨⟨next.scopes⟩, .module, next.positions + 1⟩ ⟨next.scopes + 1, next.positions + 2⟩
        members
  | .moduleElsewhere head spelling =>
    declaring here.scope ((Item.moduleElsewhere head spelling).declaration? file) ++
      [.report (.skippedModule spelling)]
  | .function head spelling body =>
    entering here next.positions ((Item.function head spelling body).declaration? file) .block ++
      statements ⟨⟨next.scopes⟩, .block, next.positions + 1⟩
        ⟨next.scopes + 1, next.positions + 2⟩ body ++
      [.register (.ofSpelling spelling) ⟨next.scopes⟩]
  | .implementation _ functions =>
    .append here.position none ::
      bodies here.scope next.positions ⟨next.scopes, next.positions + 1⟩ functions
  | .leaf head kind name =>
    declaring here.scope ((Item.leaf head kind name).declaration? file)
  | .raw _ => []

def items (here : Standpoint) (next : Supply) : List Item → List TreeStep
  | [] => []
  | i :: rest =>
    let steps := item here next i
    steps ++ items { here with position := afterItem file code here next.positions i }
      (next.after steps) rest

def statement (here : Standpoint) (next : Supply) : Statement → List TreeStep
  | .item i => item here next i
  | .invocation extent place call =>
    .append here.position none ::
      recording file code (place.context here.scope) call next.positions extent

def statements (here : Standpoint) (next : Supply) : List Statement → List TreeStep
  | [] => []
  | s :: rest =>
    let steps := statement here next s
    steps ++ statements { here with position := afterStatement file code here next.positions s }
      (next.after steps) rest

/-- The steps of walking the bodies of an implementation, each below the same position. -/
def bodies (scope : ScopeId) (position : Nat) (next : Supply) :
    List (List Statement) → List TreeStep
  | [] => []
  | body :: rest =>
    let steps := [.addScope .block scope, .submodule position] ++
      statements ⟨⟨next.scopes⟩, .block, next.positions⟩ ⟨next.scopes + 1, next.positions + 1⟩ body
    steps ++ bodies scope position (next.after steps) rest

end

/-- The steps of walking a file. -/
def ofFile (content : List Item) : List TreeStep :=
  items file code ⟨ScopeTree.root, .module, 0⟩ ⟨1, 1⟩ content ++ [.report (.walked file)]

end Script

end MacroExpansion
