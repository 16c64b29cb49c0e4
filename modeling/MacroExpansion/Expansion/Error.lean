import MacroExpansion.Definition.Shape

/-!
# Expansion errors

Why an invocation stays unexpanded. All of these mean the same to a caller; the category says
roughly which part gave up.
-/
namespace MacroExpansion

/-- What is wrong with the text of an invocation. -/
inductive Malformed where
  | invocation (cause : SyntaxError)
  | noArguments
  | reparse (cause : SyntaxError)
  | lazyStatic (cause : SyntaxError)
  deriving DecidableEq, Repr

def Malformed.message : Malformed → String
  | invocation cause => "invocation doesn't parse: " ++ cause.message
  | noArguments => "nothing between the argument delimiters"
  | reparse cause => "arguments don't parse as items: " ++ cause.message
  | lazyStatic cause => "not a single `static ref` declaration: " ++ cause.message

inductive ExpandError where
  | unresolved (name : Ident)
  | malformedDefinition (cause : SyntaxError)
  | definitionRejected (name : Ident) (reason : Unsupported)
  | argumentParseFailed (reason : Malformed)
  | templateExtractFailed
  | instantiationEmpty
  | resynthesisFailed (cause : SyntaxError)
  | noResolvableElements
  | contextBindFailed
  | builtinFailed (reason : Malformed)
  deriving DecidableEq, Repr

inductive FailureCategory where
  /-- The name has no definition. -/
  | unresolved
  /-- The definition has an unsupported form. -/
  | unsupportedShape
  /-- Something does not parse, or there are no arguments at all. -/
  | malformedInput
  /-- Nothing came out. -/
  | emptyResult
  /-- Nothing can be declared where the invocation stands. -/
  | contextUnavailable
  deriving DecidableEq, Repr

def FailureCategory.text : FailureCategory → String
  | unresolved => "Unresolved"
  | unsupportedShape => "UnsupportedShape"
  | malformedInput => "MalformedInput"
  | emptyResult => "EmptyResult"
  | contextUnavailable => "ContextUnavailable"

namespace ExpandError

def message : ExpandError → String
  | unresolved name => "no definition for `" ++ name.name ++ "!` in scope"
  | malformedDefinition cause => "definition doesn't parse: " ++ cause.message
  | definitionRejected name reason => "can't expand `" ++ name.name ++ "!`: " ++ reason.message
  | argumentParseFailed reason => "bad arguments: " ++ reason.message
  | templateExtractFailed => "couldn't extract the template text"
  | instantiationEmpty => "no items in the arguments"
  | resynthesisFailed cause => "expansion doesn't parse: " ++ cause.message
  | noResolvableElements => "expansion contains no resolvable items"
  | contextBindFailed => "items can't be declared where the macro was invoked"
  | builtinFailed reason => "bad builtin invocation: " ++ reason.message

def category : ExpandError → FailureCategory
  | unresolved _ => .unresolved
  | definitionRejected _ _ | templateExtractFailed => .unsupportedShape
  | malformedDefinition _ | argumentParseFailed _ | resynthesisFailed _ | builtinFailed _ =>
    .malformedInput
  | instantiationEmpty | noResolvableElements => .emptyResult
  | contextBindFailed => .contextUnavailable

end ExpandError

end MacroExpansion
