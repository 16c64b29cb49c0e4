import MacroExpansion.Grammar.Cursor
import MacroExpansion.Item

/-!
# Attributes and plain paths

An attribute starts with a plain path; the tokens after it are its own affair. Outer attributes
stand before an item, inner ones at the start of its braces.
-/
namespace MacroExpansion.Grammar

/-- The words that a plain path may be made of. -/
def plainSegment : Look :=
  .either .name (.anyKeyword ["super", "self", "Self", "crate"])

/-- A path whose segments have no arguments. -/
def plainPath : Parser MacroPath := do
  let rooted ← symbol? "::"
  let read ← separatedSegments
  return ⟨rooted, read⟩
where
  /-- At least one segment, and none left out after a `::`. -/
  separatedSegments : Parser (List String) := do
    let read ← rounds (fun (read : List String) => do
      unless ← peek plainSegment do refuse
      let read := (← word) :: read
      return (read, ← symbol? "::")) []
    return read.reverse

/-- Passes over all tokens left. -/
def skipAll : Parser Unit := do
  let _ ← untilEnd tree

/-- How the path of an attribute is written in lists of attributes. -/
def attributeName (path : MacroPath) : String :=
  "::".intercalate path.segments

/-- The brackets of an attribute, with the name of it. -/
def attributeBrackets : Parser String := do
  let path ← delimited .bracket do
    let path ← plainPath
    skipAll
    return path
  return attributeName path

def outerAttributes : Parser (List String) :=
  untilStop (fun tokens => !Look.symbol "#" tokens) do
    symbol "#"
    attributeBrackets

def innerAttributes : Parser (List String) :=
  untilStop (fun tokens => !(Look.symbol "#" tokens && Look.second (Look.symbol "!") tokens)) do
    symbol "#"
    symbol "!"
    attributeBrackets

/-- The position of the next token. -/
def here : Parser Position := do
  return (((← get).rest.head?.map TokenTree.extent).getD ⟨.origin, .origin⟩).start

/-- The exclamation mark and the group of an invocation of `path`, which starts at `start`. -/
def callOf (path : MacroPath) (start : Position) : Parser MacroCall := do
  symbol "!"
  let (delimiter, body, group) ← anyGroup
  return ⟨path, delimiter, body, group, ⟨start, group.stop⟩⟩

def macroCall : Parser MacroCall := do
  let start ← here
  callOf (← plainPath) start

/-- An invocation in place of an item, with the semicolon that it needs unless it has braces. -/
def macroCallItem : Parser MacroCall := do
  let call ← macroCall
  if call.needsSemicolon then symbol ";"
  return call

end MacroExpansion.Grammar
