import MacroExpansion.Expansion.Arguments

/-!
# Lazily evaluated statics

A declaration `static ref NAME: TYPE = VALUE;` among the arguments of `lazy_static!` stands for the
static without `ref`. Its definition is never looked at.
-/
namespace MacroExpansion

namespace Grammar

/-- Reads the declaration of a lazily evaluated static; gives the stretch of its `ref`. -/
def lazyStatic (r : Rules) : Parser Extent := do
  let _ ← outerAttributes
  let _ ← visibility?
  keyword "static"
  let (_, mark) ← placed (keyword "ref")
  let _ ← name
  symbol ":"
  let _ ← r.type true
  symbol "="
  let _ ← r.expression true
  symbol ";"
  return mark

end Grammar

namespace LazyStatic

/-- The name of the invocations that this module expands. -/
def invocationName : Ident := ⟨"lazy_static"⟩

/-- A text without the bytes of a stretch, and with one space in place of the blanks around it. The
cuts are not checked: one outside of the text, or within a character, breaks the attempt off. -/
def cutOut (text : List Char) (mark : Extent) : Attempt Malformed (List Char) := do
  let before ← Attempt.require (Text.takeBytes? mark.start.offset text)
  let after ← Attempt.require (Text.dropBytes? mark.stop.offset text)
  return Text.trimEnd before ++ ' ' :: Text.trimStart after

/-- The declaration of the static itself. -/
def declaration (arguments : List Char) : Attempt Malformed (List Char) := do
  let mark ← (Grammar.parseText Grammar.lazyStatic arguments).mapError Malformed.lazyStatic
  return Text.trim (← cutOut arguments mark)

/-- The element that an invocation declares. -/
def element (invocation : MacroInvocation) : Eventful ExpandError Element := do
  let text ← Eventful.ofAttempt
    ((do declaration (← argumentText invocation.source.toList)).mapError ExpandError.builtinFailed)
  let u ← (ScratchUnit.parse ScratchUnit.lazyStaticFile text).mapError fun cause =>
    ExpandError.builtinFailed (.reparse cause)
  match u.elements (some invocation.span) with
  | element :: _ => return element
  | [] => Eventful.fail .noResolvableElements

end LazyStatic

end MacroExpansion
