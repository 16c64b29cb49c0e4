import MacroExpansion.Tree.Event
import MacroExpansion.Tree.ScopeTree
import MacroExpansion.Tree.TextualScope

/-!
# Source trees

What is kept of a file: its scopes with the names they declare, the bodies of its functions, its
definitions and its invocations, and the results of their expansion once it has taken place.
-/
namespace MacroExpansion

/-- An invocation, with the textual scope of its position. -/
structure RecordedInvocation where
  invocation : MacroInvocation
  position : Nat
  deriving DecidableEq, Repr

structure SourceTree where
  file : String
  scopes : ScopeTree
  /-- The bodies of functions by name, the first one registered by a name. -/
  functions : List (Ident × ScopeId)
  /-- The invocations in the order they were written in. -/
  invocations : List RecordedInvocation
  textual : TextualScopes
  /-- The results of the expansion, if it has taken place. -/
  expansions : Option (List BoundElement)
  deriving DecidableEq, Repr

namespace SourceTree

/-- A file without content. -/
def empty (file : String) : SourceTree where
  file := file
  scopes := .empty
  functions := []
  invocations := []
  textual := .empty
  expansions := none

/-- The body of a function. -/
def functionScope? (t : SourceTree) (name : Ident) : Option ScopeId :=
  t.functions.lookup name

/-- The results of the expansion so far. -/
def results (t : SourceTree) : List BoundElement :=
  t.expansions.getD []

end SourceTree

/-- A tree, with what happened in the work on it. -/
structure TracedTree where
  tree : SourceTree
  events : List TreeEvent
  deriving DecidableEq, Repr

namespace TracedTree

def report (t : TracedTree) (event : TreeEvent) : TracedTree :=
  { t with events := t.events ++ [event] }

/-- Binds a name in a scope. A name that is bound there keeps its binding. -/
def declare (t : TracedTree) (scope : ScopeId) (d : Declaration) : TracedTree :=
  match t.tree.scopes.declare scope d.slot d.binding with
  | .ok scopes => { t with tree := { t.tree with scopes } }
  | .error cause => t.report (.refused d.span cause)

def addScope (t : TracedTree) (kind : ScopeKind) (parent : ScopeId) : TracedTree × ScopeId :=
  let (scopes, scope) := t.tree.scopes.add kind parent
  ({ t with tree := { t.tree with scopes } }, scope)

/-- Puts a textual scope directly after another. -/
def append (t : TracedTree) (position : Nat) (definition : Option MacroDefinition) :
    TracedTree × Nat :=
  let (textual, made) := t.tree.textual.append position definition
  ({ t with tree := { t.tree with textual } }, made)

/-- Starts the textual scopes of what is enclosed at a position. -/
def submodule (t : TracedTree) (position : Nat) : TracedTree × Nat :=
  let (textual, made) := t.tree.textual.submodule position
  ({ t with tree := { t.tree with textual } }, made)

/-- Registers the body of a function, unless there is one by that name. -/
def register (t : TracedTree) (name : Ident) (body : ScopeId) : TracedTree :=
  match t.tree.functionScope? name with
  | some _ => t.report (.repeatedFunction name)
  | none => { t with tree := { t.tree with functions := t.tree.functions ++ [(name, body)] } }

/-- Adds an invocation. -/
def record (t : TracedTree) (invocation : MacroInvocation) (position : Nat) : TracedTree :=
  { t with tree := { t.tree with invocations := t.tree.invocations ++ [⟨invocation, position⟩] } }

end TracedTree

end MacroExpansion
