import MacroExpansion.Expansion.ScratchUnit
import MacroExpansion.Text.Slice

/-!
# Arguments of an invocation

The text between the delimiters of an invocation is cut out and parsed as items, each of which is an
argument.
-/
namespace MacroExpansion

/-- One argument: the text of an item, with where it stands among the arguments. -/
structure ArgumentFragment where
  text : List Char
  /-- The first byte. -/
  start : Nat
  /-- The byte after the last. -/
  stop : Nat
  deriving DecidableEq, Repr

/-- The text strictly between the delimiters of an invocation. -/
def argumentText (source : List Char) : Attempt Malformed (List Char) := do
  let call ← (Grammar.parseCall source).mapError Malformed.invocation
  Attempt.ofOption .noArguments
    (Text.between? source call.group.start.offset call.group.stop.offset)

/-- The arguments in a text, in order. -/
def parseArguments (text : List Char) : Eventful Malformed (List ArgumentFragment) := do
  let u ← (ScratchUnit.parse ScratchUnit.argumentsFile text).mapError Malformed.reparse
  return u.items.filterMap fun item => do
    let fragment ← u.textOf? item.head
    return ⟨fragment, (u.rangeOf item.head).1, (u.rangeOf item.head).2⟩

end MacroExpansion
