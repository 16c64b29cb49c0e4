import MacroExpansion.Tree.Walk

/-!
# Outlines

What a file holds, laid out without any state. Its regions are its root, the modules written in it
and the bodies of its functions, numbered in the order they start in. Its outline lists all items
and the invocations among its statements in source order, each with the innermost region that holds
it and with what stands before it: in its own list first, then before what encloses it, outwards.
-/
namespace MacroExpansion

/-- The root of a file, a module written in it or the body of a function. -/
structure Region where
  kind : ScopeKind
  parent : Option ScopeId
  /-- What stands in it and in no region within it. -/
  members : List Statement

namespace Regions

mutual

/-- The regions within an item of `scope`, numbered from `next` on. -/
def item (scope : ScopeId) (next : Nat) : Item → List Region
  | .module _ _ members =>
    ⟨.module, some scope, members.map .item⟩ :: items ⟨next⟩ (next + 1) members
  | .function _ _ body => ⟨.block, some scope, body⟩ :: statements ⟨next⟩ (next + 1) body
  | .implementation _ functions => bodies scope next functions
  | _ => []

def items (scope : ScopeId) (next : Nat) : List Item → List Region
  | [] => []
  | i :: rest => item scope next i ++ items scope (next + (item scope next i).length) rest

def statement (scope : ScopeId) (next : Nat) : Statement → List Region
  | .item i => item scope next i
  | .invocation _ _ _ => []

def statements (scope : ScopeId) (next : Nat) : List Statement → List Region
  | [] => []
  | s :: rest =>
    statement scope next s ++ statements scope (next + (statement scope next s).length) rest

def bodies (scope : ScopeId) (next : Nat) : List (List Statement) → List Region
  | [] => []
  | body :: rest =>
    let inner := statements ⟨next⟩ (next + 1) body
    ⟨.block, some scope, body⟩ :: inner ++ bodies scope (next + 1 + inner.length) rest

end

/-- The regions of a file. -/
def ofFile (content : List Item) : List Region :=
  ⟨.module, none, content.map .item⟩ :: items ScopeTree.root 1 content

end Regions

/-- An item or statement in its place. -/
structure Placed where
  /-- The innermost region that holds it. -/
  scope : ScopeId
  kind : ScopeKind
  /-- What stands before it in its list, then what stands before the module, function or
  implementation that holds that list, and so on outwards. -/
  levels : List (List Statement)
  content : Statement

namespace Outline

mutual

/-- An item and all that it holds; the regions within it are numbered from `next` on. -/
def item (scope : ScopeId) (kind : ScopeKind) (next : Nat) (levels : List (List Statement)) :
    Item → List Placed
  | .module head spelling members =>
    ⟨scope, kind, levels, .item (.module head spelling members)⟩ ::
      items ⟨next⟩ .module (next + 1) [] levels members
  | .function head spelling body =>
    ⟨scope, kind, levels, .item (.function head spelling body)⟩ ::
      statements ⟨next⟩ .block (next + 1) [] levels body
  | .implementation head functions =>
    ⟨scope, kind, levels, .item (.implementation head functions)⟩ ::
      bodies next levels scope functions
  | other => [⟨scope, kind, levels, .item other⟩]
termination_by structural i => i

/-- The rest of a list of items, `before` being what came first. -/
def items (scope : ScopeId) (kind : ScopeKind) (next : Nat) (before : List Statement)
    (outer : List (List Statement)) : List Item → List Placed
  | [] => []
  | i :: rest =>
    item scope kind next (before :: outer) i ++
      items scope kind (next + (Regions.item scope next i).length) (before ++ [.item i]) outer rest
termination_by structural list => list

def statement (scope : ScopeId) (kind : ScopeKind) (next : Nat)
    (levels : List (List Statement)) : Statement → List Placed
  | .item i => item scope kind next levels i
  | .invocation extent position call =>
    [⟨scope, kind, levels, .invocation extent position call⟩]
termination_by structural s => s

def statements (scope : ScopeId) (kind : ScopeKind) (next : Nat) (before : List Statement)
    (outer : List (List Statement)) : List Statement → List Placed
  | [] => []
  | s :: rest =>
    statement scope kind next (before :: outer) s ++
      statements scope kind (next + (Regions.statement scope next s).length) (before ++ [s]) outer
        rest
termination_by structural list => list

/-- The bodies of an implementation in `scope`. No body stands before another. -/
def bodies (next : Nat) (outer : List (List Statement)) (scope : ScopeId) :
    List (List Statement) → List Placed
  | [] => []
  | body :: rest =>
    statements ⟨next⟩ .block (next + 1) [] outer body ++
      bodies (next + 1 + (Regions.statements ⟨next⟩ (next + 1) body).length) outer scope rest
termination_by structural list => list

end

/-- The outline of a file. -/
def ofFile (content : List Item) : List Placed :=
  items ScopeTree.root .module 1 [] [] content

end Outline

/-! ## What an outline says of names -/

/-- The definition that a statement makes, if its text can be cut out of the code. -/
def Statement.definition? (file : String) (code : List Char) : Statement → Option MacroDefinition
  | .item (.ruleSet head spelling) => head.definition? file code spelling
  | _ => none

/-- The last definition of `name` among some statements. -/
def lastDefinition? (file : String) (code : List Char) (name : Ident)
    (statements : List Statement) : Option MacroDefinition :=
  ((statements.filterMap (Statement.definition? file code)).filter fun d => d.name = name).getLast?

/-- The context of an invocation in place of an item of a region. -/
def ScopeKind.itemContext (scope : ScopeId) : ScopeKind → InvocationContext
  | module => .module scope
  | block => .block scope

namespace Placed

/-- The definition of `name` that lexical scoping gives: the last one before it in its list, and if
there is none, the last one before what encloses it, and so on outwards. -/
def visible? (p : Placed) (file : String) (code : List Char) (name : Ident) :
    Option MacroDefinition :=
  p.levels.findSome? (lastDefinition? file code name)

/-- How it binds a name in its region. -/
def declaration? (p : Placed) (file : String) (code : List Char) : Option Declaration :=
  match p.content with
  | .item (.ruleSet head spelling) =>
    (head.definition? file code spelling).map MacroDefinition.declaration
  | .item i => i.declaration? file
  | .invocation _ _ _ => none

/-- The invocation that it is, with the context of its place: the region that holds it in place of
an item or of a statement, and none for a value. -/
def invocation? (p : Placed) (file : String) (code : List Char) : Option MacroInvocation :=
  match p.content with
  | .item (.invocation _ call) =>
    (call.invocation file code (p.kind.itemContext p.scope)).toOption.join
  | .invocation _ position call =>
    (call.invocation file code (position.context p.scope)).toOption.join
  | _ => none

end Placed

end MacroExpansion
