import MacroExpansion.Element

/-!
# Bindings

The names that a scope declares, per namespace. The first binding of a name counts; a later one is
refused and changes nothing.
-/
namespace MacroExpansion

/-- Where a binding came from. -/
inductive Origin where
  /-- It was written at this location. -/
  | declared (span : Span)
  /-- It was produced by the invocation at this location. -/
  | expanded (invocation : Span)
  deriving DecidableEq, Repr

/-- What a name is bound to. -/
structure Binding where
  kind : ElementKind
  origin : Origin
  deriving DecidableEq, Repr

/-- A name to be bound, what to, and the location that a refusal is reported at. -/
structure Declaration where
  slot : Slot
  binding : Binding
  span : Span
  deriving DecidableEq, Repr

/-- A name was bound already. -/
structure AlreadyDefined where
  slot : Slot
  deriving DecidableEq, Repr

def AlreadyDefined.message (e : AlreadyDefined) : String :=
  "`" ++ e.slot.name.name ++ "` already defined in " ++ e.slot.space.text ++ " namespace"

/-- A name in a namespace, with its binding. -/
structure BindingEntry where
  slot : Slot
  binding : Binding
  deriving DecidableEq, Repr

/-- The bindings of one scope, in the order they were made. -/
structure ScopeBindings where
  entries : List BindingEntry
  deriving DecidableEq, Repr

namespace ScopeBindings

def empty : ScopeBindings := ⟨[]⟩

/-- The binding of a name in a namespace. -/
def get? (b : ScopeBindings) (slot : Slot) : Option Binding :=
  (b.entries.find? fun e => e.slot = slot).map BindingEntry.binding

/-- Binds a name, unless it is bound in that namespace. -/
def insert (b : ScopeBindings) (slot : Slot) (binding : Binding) :
    Except AlreadyDefined ScopeBindings :=
  match b.get? slot with
  | some _ => .error ⟨slot⟩
  | none => .ok ⟨b.entries ++ [⟨slot, binding⟩]⟩

/-- The names bound in a namespace, each with its binding. -/
def inNamespace (b : ScopeBindings) (space : Namespace) : List (Ident × Binding) :=
  b.entries.filterMap fun e =>
    if e.slot.space = space then some (e.slot.name, e.binding) else none

/-- A name that is bound now stands for what it was bound to, and all others for what they did. -/
theorem get?_insert {b made : ScopeBindings} {slot : Slot} {binding : Binding}
    (h : b.insert slot binding = .ok made) (other : Slot) :
    made.get? other = if other = slot then some binding else b.get? other := by
  unfold insert at h
  split at h
  · cases h
  · rename_i hn
    cases h
    unfold get? at hn ⊢
    rw [List.find?_append]
    split
    · next heq =>
      subst heq
      rw [Option.map_eq_none_iff] at hn
      simp [hn]
    · next hne =>
      have : decide (slot = other) = false := by simpa using fun h => hne h.symm
      simp [this]

end ScopeBindings

end MacroExpansion
