import MacroExpansion.Macro

/-!
# Textual scopes

A definition is visible from where it is written to the end of the enclosing module, and inside of
what is written after it. Every invocation keeps the textual scope of its position, so definitions
may be put in front of a scope later on: the scopes of one list are linked both ways, and a new
scope is spliced in directly after the one it is appended to. A submodule starts a list of its own
and points back to the scope it was written in, which knows nothing of it.
-/
namespace MacroExpansion

/-- One textual scope. Scopes are referred to by their number. -/
structure TextualNode where
  previous : Option Nat
  definition : Option MacroDefinition
  next : Option Nat
  deriving DecidableEq, Repr

/-- All textual scopes made so far; the number of a scope is its position. -/
structure TextualScopes where
  nodes : Array TextualNode
  deriving DecidableEq, Repr

namespace TextualScopes

/-- A single scope, number 0, without a definition. -/
def empty : TextualScopes :=
  ⟨#[⟨none, none, none⟩]⟩

def size (t : TextualScopes) : Nat :=
  t.nodes.size

/-- The scope that follows a scope in its list. -/
def next? (t : TextualScopes) (scope : Nat) : Option Nat :=
  t.nodes[scope]?.bind TextualNode.next

/-- Follows at most `steps` scopes back from `scope`, up to a definition of `name`. -/
def lookupWithin (t : TextualScopes) (name : Ident) :
    (steps : Nat) → (scope : Nat) → Option MacroDefinition
  | 0, _ => none
  | steps + 1, scope =>
    match t.nodes[scope]? with
    | none => none
    | some node =>
      match node.definition.filter fun d => d.name = name with
      | some d => some d
      | none => node.previous.bind (lookupWithin t name steps)

/-- The definition of `name` that is visible from `scope`: later ones shadow earlier ones. The way
back visits a scope once at most, so the number of scopes bounds it. -/
def lookup (t : TextualScopes) (scope : Nat) (name : Ident) : Option MacroDefinition :=
  t.lookupWithin name t.size scope

/-- Puts a new scope directly after `scope`. -/
def append (t : TextualScopes) (scope : Nat) (definition : Option MacroDefinition) :
    TextualScopes × Nat :=
  let made := t.size
  let following := t.next? scope
  let nodes := t.nodes.modify scope fun node => { node with next := some made }
  let nodes := match following with
    | some after => nodes.modify after fun node => { node with previous := some made }
    | none => nodes
  (⟨nodes.push ⟨some scope, definition, following⟩⟩, made)

/-- Starts a new list that inherits from `scope`. -/
def submodule (t : TextualScopes) (scope : Nat) : TextualScopes × Nat :=
  (⟨t.nodes.push ⟨some scope, none, none⟩⟩, t.size)

@[simp] theorem size_append (t : TextualScopes) (scope : Nat)
    (definition : Option MacroDefinition) :
    (t.append scope definition).1.size = t.size + 1 := by
  unfold append size
  cases t.next? scope <;> simp

@[simp] theorem size_submodule (t : TextualScopes) (scope : Nat) :
    (t.submodule scope).1.size = t.size + 1 := by
  simp [submodule, size]

end TextualScopes

end MacroExpansion
