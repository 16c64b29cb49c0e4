/-!
# Scopes and namespaces

A scope is a module, the root of a file, or a function body. An invocation stands in item position
of a module, in statement position of a body, or where nothing can be declared.
-/
namespace MacroExpansion

/-- The number of a scope within its tree. -/
structure ScopeId where
  index : Nat
  deriving DecidableEq, Repr

namespace ScopeId

def text (s : ScopeId) : String :=
  "scope#" ++ toString s.index

end ScopeId

/-- The position an invocation was written in. -/
inductive InvocationContext where
  /-- Item position of a module or of the root. -/
  | module (scope : ScopeId)
  /-- Statement position of a function body. -/
  | block (scope : ScopeId)
  /-- Where an expression, a type or a pattern stands: nothing can be declared. -/
  | expression
  deriving DecidableEq, Repr

namespace InvocationContext

/-- The scope that expanded items are declared in. -/
def scope? : InvocationContext → Option ScopeId
  | module scope => some scope
  | block scope => some scope
  | expression => none

def text : InvocationContext → String
  | module scope => "Module(" ++ scope.text ++ ")"
  | block scope => "Block(" ++ scope.text ++ ")"
  | expression => "Expression"

end InvocationContext

/-- Types and modules share a namespace; functions, constants and statics share another; rule sets
have their own. -/
inductive Namespace where
  | types
  | values
  | macros
  deriving DecidableEq, Repr

namespace Namespace

def text : Namespace → String
  | types => "Type"
  | values => "Value"
  | macros => "Macro"

/-- The place of a namespace in their order. -/
def index : Namespace → Nat
  | types => 0
  | values => 1
  | macros => 2

def all : List Namespace :=
  [types, values, macros]

end Namespace

end MacroExpansion
