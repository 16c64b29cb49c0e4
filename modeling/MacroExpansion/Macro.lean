import MacroExpansion.Ident
import MacroExpansion.Scope
import MacroExpansion.Span

/-!
# Definitions and invocations

Both are kept as the text they were written in: bodies are cut out of that text, which a detour
over tokens could not give back.
-/
namespace MacroExpansion

/-- The definition of a rule set. -/
structure MacroDefinition where
  /-- The name it is invoked by. -/
  name : Ident
  /-- The whole item, attributes included. -/
  source : String
  span : Span
  deriving DecidableEq, Repr

/-- An invocation. -/
structure MacroInvocation where
  /-- The last segment of the invoked path. -/
  name : Ident
  /-- The text from the path to the closing delimiter, without attributes and semicolon. -/
  source : String
  span : Span
  context : InvocationContext
  deriving DecidableEq, Repr

namespace MacroDefinition

/-- The short form: name and location. -/
def summary (d : MacroDefinition) : String :=
  "macro_rules! " ++ d.name.name ++ " @ " ++ d.span.text

end MacroDefinition

namespace MacroInvocation

/-- The short form: name, location and context. -/
def summary (i : MacroInvocation) : String :=
  i.name.name ++ "! @ " ++ i.span.text ++ " in " ++ i.context.text

end MacroInvocation

end MacroExpansion
