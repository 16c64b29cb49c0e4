import MacroExpansion.Expansion.Error
import MacroExpansion.Macro

/-!
# Events of an expansion

What happens during an expansion, in order. Lookups of definitions are events too, though nobody is
told of them.
-/
namespace MacroExpansion

/-- How much an event matters. -/
inductive Level where
  | trace
  | debug
  | warn
  deriving DecidableEq, Repr

namespace Level

def text : Level → String
  | trace => "trace"
  | debug => "debug"
  | warn => "warn"

def rank : Level → Nat
  | trace => 0
  | debug => 1
  | warn => 2

end Level

/-- A message about an event. -/
structure Notice where
  level : Level
  text : String
  deriving DecidableEq, Repr

/-- The messages that matter at least as much as `least`. -/
def Notice.atLeast (least : Level) (notices : List Notice) : List Notice :=
  notices.filter fun notice => least.rank ≤ notice.level.rank

inductive Event where
  /-- A definition was asked for. -/
  | lookup (name : Ident)
  | parsingUnit (file : String) (bytes : Nat)
  | expandingBuiltin (name : Ident)
  | expanding (invocation : MacroInvocation) (definition : MacroDefinition)
  | notExpanding (invocation : MacroInvocation) (cause : ExpandError)
  deriving DecidableEq, Repr

namespace Event

def notice? : Event → Option Notice
  | lookup _ => none
  | parsingUnit file bytes =>
    some ⟨.trace, "parsing scratch unit `" ++ file ++ "` (" ++ toString bytes ++ " bytes)"⟩
  | expandingBuiltin name => some ⟨.trace, "expanding builtin " ++ name.name ++ "!"⟩
  | expanding invocation definition =>
    some ⟨.trace, "expanding " ++ invocation.summary ++ " with " ++ definition.summary⟩
  | notExpanding invocation cause =>
    some ⟨.debug, "[" ++ invocation.span.text ++ "]: not expanding " ++ invocation.name.name ++
      "!: " ++ cause.message ++ " (" ++ cause.category.text ++ ")"⟩

def isLookup : Event → Bool
  | lookup _ => true
  | _ => false

end Event

/-- An attempt in the course of which events happen. They are kept if it fails. -/
abbrev Eventful (ε α : Type) := ExceptT (Failure ε) (StateM (List Event)) α

namespace Eventful

/-- Adds an event. -/
def report (event : Event) : Eventful ε Unit :=
  ExceptT.lift (modify (· ++ [event]))

/-- An attempt without events. -/
def ofAttempt (attempt : Attempt ε α) : Eventful ε α :=
  ExceptT.mk (pure attempt)

def fail (cause : ε) : Eventful ε α :=
  ofAttempt (Attempt.fail cause)

/-- The same with its error put in other terms. -/
def mapError (f : ε → δ) (attempt : Eventful ε α) : Eventful δ α :=
  ExceptT.mk (Attempt.mapError f <$> attempt.run)

/-- The outcome, with the events in order. -/
def outcome (attempt : Eventful ε α) : Attempt ε α × List Event :=
  attempt.run.run []

end Eventful

end MacroExpansion
