import MacroExpansion.Ident
import MacroExpansion.Scope
import MacroExpansion.Span

/-!
# Elements

An element is a top-level item that takes part in name resolution. Read from generated text it
belongs to no scope yet; `Element.bind?` places it in the scope of the invocation that produced it.
-/
namespace MacroExpansion

/-- What an element is. -/
inductive ElementKind where
  | const
  | enum
  | externCrate
  | foreignBlock
  | function
  | impl
  /-- An invocation, which is not expanded further. -/
  | macroCall
  /-- The definition of a rule set. -/
  | macroRules
  | module
  | static
  | struct
  | trait
  | traitAlias
  | typeAlias
  | union
  | use
  deriving DecidableEq, Repr

namespace ElementKind

def text : ElementKind → String
  | const => "Const"
  | enum => "Enum"
  | externCrate => "ExternCrate"
  | foreignBlock => "ForeignBlock"
  | function => "Function"
  | impl => "Impl"
  | macroCall => "MacroCall"
  | macroRules => "MacroRules"
  | module => "Module"
  | static => "Static"
  | struct => "Struct"
  | trait => "Trait"
  | traitAlias => "TraitAlias"
  | typeAlias => "TypeAlias"
  | union => "Union"
  | use => "Use"

def all : List ElementKind :=
  [const, enum, externCrate, foreignBlock, function, impl, macroCall, macroRules, module, static,
    struct, trait, traitAlias, typeAlias, union, use]

/-- The namespace that an element of this kind declares its name in. -/
def namespace? : ElementKind → Option Namespace
  | const | function | static => some .values
  | enum | externCrate | module | struct | trait | traitAlias | typeAlias | union => some .types
  | macroRules => some .macros
  | foreignBlock | impl | macroCall | use => none

theorem mem_all (k : ElementKind) : k ∈ all := by
  cases k <;> decide

end ElementKind

/-- A name in a namespace, which at most one element of a scope can declare. -/
structure Slot where
  space : Namespace
  name : Ident
  deriving DecidableEq, Repr

/-- What an element of this kind declares by its name. -/
def ElementKind.slot? (kind : ElementKind) (name : Option Ident) : Option Slot := do
  return ⟨← kind.namespace?, ← name⟩

/-- An element as it was read, in no scope yet. -/
structure Element where
  kind : ElementKind
  name : Option Ident
  /-- The paths of its attributes, such as `cfg` or `serde::rename`. -/
  attributes : List String
  /-- Its text, as written. -/
  text : String
  span : Span
  deriving DecidableEq, Repr

/-- An element placed in a scope. -/
structure BoundElement extends Element where
  context : ScopeId
  deriving DecidableEq, Repr

namespace BoundElement

def hasAttribute (e : BoundElement) (path : String) : Bool :=
  e.attributes.contains path

/-- The short form: kind, name and scope. -/
def summary (e : BoundElement) : String :=
  let named := match e.name with
    | some ident => " " ++ ident.name
    | none => ""
  e.kind.text ++ named ++ " in " ++ e.context.text

end BoundElement

/-- An element placed in the scope of a context, if the context has one. -/
def Element.bind? (e : Element) (context : InvocationContext) : Option BoundElement :=
  context.scope?.map fun scope => { e with context := scope }

end MacroExpansion
