import MacroExpansion.Tree.Bindings

/-!
# Scopes of a file

The root of a file, every module written in it and every body of a function is a scope. A body sees
its own names and then those of what it stands in, out to the nearest module. A module sees its own
names only.
-/
namespace MacroExpansion

inductive ScopeKind where
  | module
  | block
  deriving DecidableEq, Repr

def ScopeKind.text : ScopeKind → String
  | module => "Module"
  | block => "Block"

/-- A scope, with the scope it stands in. -/
structure ScopeNode where
  kind : ScopeKind
  parent : Option ScopeId
  bindings : ScopeBindings
  deriving DecidableEq, Repr

/-- All scopes of a file; the number of a scope is its position. -/
structure ScopeTree where
  nodes : Array ScopeNode
  deriving DecidableEq, Repr

namespace ScopeTree

/-- The root of a file. -/
def root : ScopeId := ⟨0⟩

/-- A root in which nothing is declared. -/
def empty : ScopeTree :=
  ⟨#[⟨.module, none, .empty⟩]⟩

def size (t : ScopeTree) : Nat :=
  t.nodes.size

def get? (t : ScopeTree) (scope : ScopeId) : Option ScopeNode :=
  t.nodes[scope.index]?

def kind? (t : ScopeTree) (scope : ScopeId) : Option ScopeKind :=
  (t.get? scope).map ScopeNode.kind

def parent? (t : ScopeTree) (scope : ScopeId) : Option ScopeId :=
  (t.get? scope).bind ScopeNode.parent

/-- Makes a scope within another. -/
def add (t : ScopeTree) (kind : ScopeKind) (parent : ScopeId) : ScopeTree × ScopeId :=
  (⟨t.nodes.push ⟨kind, some parent, .empty⟩⟩, ⟨t.size⟩)

/-- Binds a name in a scope, unless it is bound there. Nothing is bound where there is no scope. -/
def declare (t : ScopeTree) (scope : ScopeId) (slot : Slot) (binding : Binding) :
    Except AlreadyDefined ScopeTree :=
  match t.get? scope with
  | none => .ok t
  | some node => do
    let bindings ← node.bindings.insert slot binding
    return ⟨t.nodes.modify scope.index fun node => { node with bindings }⟩

/-- The context of an invocation in place of an item. -/
def itemContext (t : ScopeTree) (scope : ScopeId) : InvocationContext :=
  match t.kind? scope with
  | some .block => .block scope
  | _ => .module scope

/-- Looks for a name in at most `steps` scopes, from `scope` outwards to the nearest module. -/
def resolveWithin (t : ScopeTree) (slot : Slot) : (steps : Nat) → (scope : ScopeId) → Option Binding
  | 0, _ => none
  | steps + 1, scope =>
    match t.get? scope with
    | none => none
    | some node =>
      match node.bindings.get? slot with
      | some binding => some binding
      | none =>
        match node.kind with
        | .module => none
        | .block => node.parent.bind (resolveWithin t slot steps)

/-- What a plain name stands for, as seen from a scope. The way out visits a scope once at most, so
the number of scopes bounds it. -/
def resolve (t : ScopeTree) (scope : ScopeId) (slot : Slot) : Option Binding :=
  t.resolveWithin slot t.size scope

end ScopeTree

end MacroExpansion
