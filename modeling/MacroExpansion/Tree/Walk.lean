import MacroExpansion.Expansion.ScratchUnit
import MacroExpansion.Tree.SourceTree

/-!
# Walking a file

The items of a file are gone through in order. What they declare is bound in the scope they stand
in; modules and bodies of functions are entered and make scopes of their own. Definitions and
invocations are cut out of the file; those whose text cannot be found are left out. Every item that
may hold or follow a definition leaves a textual scope behind, at which what follows it goes on.
-/
namespace MacroExpansion

/-- Why a file has no source tree. -/
inductive TreeError where
  | unparsed (cause : SyntaxError)
  deriving DecidableEq, Repr

def TreeError.message : TreeError → String
  | unparsed cause => "parse error during walking: " ++ cause.message

/-- What an item declares by its name. -/
def Item.slot? (item : Item) : Option Slot :=
  item.describe.bind fun d => d.kind.slot? d.name

/-- Where a stretch of a file stands. -/
def Extent.spanIn (extent : Extent) (file : String) : Span :=
  Span.within none (extent.place file)

/-- How the name of an item is bound. -/
def Item.declaration? (item : Item) (file : String) : Option Declaration := do
  let description ← item.describe
  let slot ← item.slot?
  let span := item.head.extent.spanIn file
  return ⟨slot, ⟨description.kind, .declared span⟩, span⟩

/-- The definition that a rule set makes, if its text can be cut out of the code. -/
def ItemHead.definition? (head : ItemHead) (file : String) (code : List Char)
    (spelling : String) : Option MacroDefinition :=
  (head.textIn? code).map fun text =>
    ⟨.ofSpelling spelling, String.ofList text, head.extent.spanIn file⟩

/-- How the name of a definition is bound. -/
def MacroDefinition.declaration (d : MacroDefinition) : Declaration :=
  ⟨⟨.macros, d.name⟩, ⟨.macroRules, .declared d.span⟩, d.span⟩

/-- The name that an invocation looks up: the last segment of its path. -/
def MacroPath.target? (path : MacroPath) : Option Ident :=
  path.segments.getLast?.map .ofSpelling

/-- The invocation that a call makes, if its text can be cut out of the code. A call of an empty
path makes none. -/
def MacroCall.invocation (call : MacroCall) (file : String) (code : List Char)
    (context : InvocationContext) : Except Textless (Option MacroInvocation) :=
  match call.path.target? with
  | none => .ok none
  | some name =>
    match Text.slice? code call.extent.start.offset call.extent.stop.offset with
    | none => .error .invocation
    | some text => .ok (some ⟨name, String.ofList text, call.extent.spanIn file, context⟩)

/-- The context of an invocation among the statements of a body. -/
def CallPosition.context (body : ScopeId) : CallPosition → InvocationContext
  | statement => .block body
  | initializer | tail => .expression

namespace TracedTree

/-- Binds the name of an item. -/
def declareItem (t : TracedTree) (scope : ScopeId) (item : Item) : TracedTree :=
  match item.declaration? t.tree.file with
  | some declaration => t.declare scope declaration
  | none => t

/-- Binds a definition and makes it visible to what follows. -/
def define (t : TracedTree) (scope : ScopeId) (position : Nat) (definition : MacroDefinition) :
    TracedTree × Nat :=
  let t := t.report (.foundDefinition definition.name)
  (t.declare scope definition.declaration).append position (some definition)

/-- Adds the invocation that a call makes. -/
def recordCall (t : TracedTree) (code : List Char) (context : InvocationContext)
    (call : MacroCall) (position : Nat) : Except Textless TracedTree :=
  match call.invocation t.tree.file code context with
  | .error cause => .error cause
  | .ok none => .ok t
  | .ok (some invocation) =>
    .ok ((t.report (.foundInvocation invocation)).record invocation position)

/-- Makes a scope, and the textual scope that its content starts at. -/
def enter (t : TracedTree) (kind : ScopeKind) (parent : ScopeId) (position : Nat) :
    TracedTree × ScopeId × Nat :=
  let (t, inside) := t.addScope kind parent
  let (t, first) := t.submodule position
  (t, inside, first)

mutual

/-- Walks an item at a textual position. Gives the position of what follows it. -/
def walkItem (code : List Char) (scope : ScopeId) (t : TracedTree) (position : Nat) :
    Item → TracedTree × Nat
  | .ruleSet head spelling =>
    match head.definition? t.tree.file code spelling with
    | some definition => t.define scope position definition
    | none => (t.report (.leftOut (head.extent.spanIn t.tree.file) .definition), position)
  | .invocation head call =>
    let (t, here) := t.append position none
    match t.recordCall code (t.tree.scopes.itemContext scope) call here with
    | .ok t => (t, here)
    | .error cause => (t.report (.leftOut (head.extent.spanIn t.tree.file) cause), position)
  | .module head spelling items =>
    let t := t.declareItem scope (.module head spelling items)
    let (t, here) := t.append position none
    let (t, inside, first) := t.enter .module scope here
    (walkItems code inside t first items, here)
  | .moduleElsewhere head spelling =>
    let t := t.declareItem scope (.moduleElsewhere head spelling)
    (t.report (.skippedModule spelling), position)
  | .function head spelling body =>
    let t := t.declareItem scope (.function head spelling body)
    let (t, here) := t.append position none
    let (t, inside, first) := t.enter .block scope here
    let t := walkStatements code inside t first body
    (t.register (.ofSpelling spelling) inside, here)
  | .implementation _ bodies =>
    let (t, here) := t.append position none
    (walkBodies code scope t here bodies, here)
  | .leaf head kind name => (t.declareItem scope (.leaf head kind name), position)
  | .raw head => (t.declareItem scope (.raw head), position)

/-- Walks the items of a scope from a textual position on. -/
def walkItems (code : List Char) (scope : ScopeId) (t : TracedTree) (position : Nat) :
    List Item → TracedTree
  | [] => t
  | item :: items =>
    let (t, position) := walkItem code scope t position item
    walkItems code scope t position items

/-- Walks a statement of a body. Gives the position of what follows it, which is past an
invocation also if that is left out. -/
def walkStatement (code : List Char) (body : ScopeId) (t : TracedTree) (position : Nat) :
    Statement → TracedTree × Nat
  | .item item => walkItem code body t position item
  | .invocation extent place call =>
    let (t, here) := t.append position none
    match t.recordCall code (place.context body) call here with
    | .ok t => (t, here)
    | .error cause => (t.report (.leftOut (extent.spanIn t.tree.file) cause), here)

/-- Walks the statements of a body from a textual position on. -/
def walkStatements (code : List Char) (body : ScopeId) (t : TracedTree) (position : Nat) :
    List Statement → TracedTree
  | [] => t
  | statement :: statements =>
    let (t, position) := walkStatement code body t position statement
    walkStatements code body t position statements

/-- Walks the bodies of the functions of an implementation, each from the same position on. -/
def walkBodies (code : List Char) (scope : ScopeId) (t : TracedTree) (position : Nat) :
    List (List Statement) → TracedTree
  | [] => t
  | body :: bodies =>
    let (t, inside, first) := t.enter .block scope position
    walkBodies code scope (walkStatements code inside t first body) position bodies

end

end TracedTree

namespace SourceTree

/-- The tree of some items, whose texts are cut out of `code`. -/
def ofItems (file : String) (code : List Char) (items : List Item) : TracedTree :=
  let start : TracedTree := ⟨empty file, [.parsing file]⟩
  (start.walkItems code ScopeTree.root 0 items).report (.walked file)

/-- The tree of a file. -/
def parse (file : String) (source : List Char) : Attempt TreeError TracedTree := do
  let items ← (Grammar.parseFile (Text.codeOf source)).mapError TreeError.unparsed
  return ofItems file (Text.stripPreamble source) items

end SourceTree

end MacroExpansion
