import MacroExpansion.Expansion.Event
import MacroExpansion.Text.Preamble

/-!
# Scratch units

Generated text is parsed like a file, under a made-up name. Positions in the parsed items are
relative to the text without its preamble; those of the unit count from the start of its text.
-/
namespace MacroExpansion

structure ScratchUnit where
  fileName : String
  text : List Char
  items : List Item

/-- The location of a stretch of a file. -/
def Extent.place (extent : Extent) (file : String) : Place :=
  ⟨file, extent.start.line, extent.start.column, extent.stop.line, extent.stop.column⟩

namespace ItemHead

/-- The bytes that an item covers, relative to the text without its preamble. -/
def range (head : ItemHead) : Nat × Nat :=
  (if head.displaced then 0 else head.extent.start.offset, head.extent.stop.offset)

/-- The text of an item, cut out of the text without its preamble. -/
def textIn? (head : ItemHead) (source : List Char) : Option (List Char) :=
  Text.slice? source head.range.1 head.range.2

end ItemHead

namespace ScratchUnit

/-- The name that arguments are parsed under. -/
def argumentsFile : String := "macro_scratch_space.rs"

/-- The name that copies of a template are parsed under. -/
def expansionFile : String := "MACRO.rs"

/-- The name that the declaration of a static is parsed under. -/
def lazyStaticFile : String := "lazy_static.rs"

def parse (fileName : String) (text : List Char) : Eventful SyntaxError ScratchUnit := do
  Eventful.report (.parsingUnit fileName (Text.byteSize text))
  let items ← Eventful.ofAttempt (Grammar.parseFile (Text.codeOf text))
  return ⟨fileName, text, items⟩

/-- The bytes ahead of what positions are relative to. -/
def preamble (u : ScratchUnit) : Nat :=
  Text.byteSize u.text - Text.byteSize (Text.stripPreamble u.text)

/-- The bytes that an item covers. -/
def rangeOf (u : ScratchUnit) (head : ItemHead) : Nat × Nat :=
  (head.range.1 + u.preamble, head.range.2 + u.preamble)

/-- The text of an item. -/
def textOf? (u : ScratchUnit) (head : ItemHead) : Option (List Char) :=
  Text.slice? u.text (u.rangeOf head).1 (u.rangeOf head).2

/-- The element that an item is, if it takes part in name resolution and has a text. -/
def element? (u : ScratchUnit) (invocation : Option Span) (item : Item) : Option Element := do
  let description ← item.describe
  let text ← u.textOf? item.head
  return {
    kind := description.kind
    name := description.name
    attributes := item.head.attributes
    text := String.ofList text
    span := Span.within invocation (item.head.extent.place u.fileName) }

/-- The elements of a unit, in order. -/
def elements (u : ScratchUnit) (invocation : Option Span) : List Element :=
  u.items.filterMap (u.element? invocation)

end ScratchUnit

end MacroExpansion
