/-!
# Syntax errors

Why a text does not follow the grammar of files, of invocations or of definitions. Errors of the
token level and of the general grammar are not told apart.
-/
namespace MacroExpansion

inductive SyntaxError where
  /-- The text has no tokens, or one of them may not stand where it does. -/
  | unexpected
  /-- What should be a definition invokes something else. -/
  | notDefinition
  /-- A definition without a name. -/
  | unnamedDefinition
  /-- A repetition at whose end no operator follows. -/
  | missingOperator
  /-- A delimited group between a repetition and its operator. -/
  | groupSeparator
  | unknownFragment (spelling : String)
  deriving DecidableEq, Repr

namespace SyntaxError

def message : SyntaxError → String
  | unexpected => "<syn>"
  | notDefinition => "not a macro_rules! definition"
  | unnamedDefinition => "macro_rules! without a name"
  | missingOperator => "unexpected end of input, repetition without `*`, `+` or `?`"
  | groupSeparator => "group as a repetition separator"
  | unknownFragment spelling => "unknown fragment specifier `" ++ spelling ++ "`"

end SyntaxError

end MacroExpansion
