import MacroExpansion.Attempt
import MacroExpansion.SyntaxError
import MacroExpansion.Token.Tree

/-!
# Reading token trees

A parser reads tokens of one level; the content of a group is read by a parser of its own, which has
to use it up. The grammar decides by looking at most three tokens ahead, for which a lifetime counts
as one token.

Items are cut out of their text from the first token to the last. Some constructs have a normal
order that is not the written one, and putting them into it takes a token of no place in the text:
such an item counts as starting where the text starts. A parser notes this for its own level.
-/
namespace MacroExpansion.Grammar

/-- What a parser has read so far and has still to read. -/
structure Cursor where
  rest : List TokenTree
  /-- Whether something was read whose normal order takes a token of no place. -/
  displaced : Bool
  /-- The stretch of the last token read. -/
  last : Option Extent

abbrev Parser (α : Type) := StateT Cursor (Attempt SyntaxError) α

/-- A question about the tokens ahead. -/
abbrev Look := List TokenTree → Bool

/-- The words that are no names unless spelled raw. -/
def reserved : List String :=
  ["_", "abstract", "as", "become", "box", "break", "const", "continue", "crate", "do", "else",
    "enum", "extern", "false", "final", "fn", "for", "if", "impl", "in", "let", "loop", "macro",
    "match", "mod", "move", "mut", "override", "priv", "pub", "ref", "return", "Self", "self",
    "static", "struct", "super", "trait", "true", "type", "typeof", "unsafe", "unsized", "use",
    "virtual", "where", "while", "yield"]

namespace Look

/-- Any word, reserved or not. -/
def word : Look
  | .ident _ _ :: _ => true
  | _ => false

/-- A word that may be a name. -/
def name : Look
  | .ident spelling _ :: _ => !reserved.contains spelling
  | _ => false

def keyword (spelling : String) : Look
  | .ident other _ :: _ => other == spelling
  | _ => false

def anyKeyword (spellings : List String) : Look
  | .ident other _ :: _ => spellings.contains other
  | _ => false

def lifetime : Look
  | .punct '\'' true _ :: .ident _ _ :: _ => true
  | _ => false

def group (delimiter : Delimiter) : Look
  | .group other _ _ :: _ => other == delimiter
  | _ => false

def nothing : Look := List.isEmpty

/-- A group whose content answers a question. -/
def inside (delimiter : Delimiter) (look : Look) : Look
  | .group other content _ :: _ => other == delimiter && look content
  | _ => false

/-- Punctuation in a row, each but the last joint. -/
def punctuation : List Char → Look
  | [], _ => true
  | [c], .punct d _ _ :: _ => c == d
  | c :: cs, .punct d true _ :: rest => c == d && punctuation cs rest
  | _ :: _, _ => false

def symbol (text : String) : Look :=
  punctuation text.toList

def either (a b : Look) : Look := fun tokens => a tokens || b tokens

def anyOf (looks : List Look) : Look := fun tokens => looks.any fun look => look tokens

def both (a b : Look) : Look := fun tokens => a tokens && b tokens

def butNot (a b : Look) : Look := fun tokens => a tokens && !b tokens

/-- The tokens after the first one. -/
def pastFirst : List TokenTree → List TokenTree
  | .punct '\'' true _ :: .ident _ _ :: rest => rest
  | _ :: rest => rest
  | [] => []

/-- A question about what follows the first token; there is none at the end. -/
def second (look : Look) : Look := fun tokens =>
  !tokens.isEmpty && look (pastFirst tokens)

/-- A question about what follows the second token. -/
def third (look : Look) : Look :=
  second (second look)

/-- One colon that is not half of `::`. -/
def colon : Look :=
  butNot (symbol ":") (symbol "::")

/-- The start of a path: a name or one of the words that stand for a module or type. -/
def pathStart : Look :=
  anyOf [name, anyKeyword ["self", "Self", "super", "crate"], symbol "::"]

end Look

/-- Refuses what stands ahead. -/
def refuse : Parser α := fun _ =>
  Attempt.fail .unexpected

/-- Gives up for good. -/
def abort : Parser α := fun _ =>
  .error .aborted

def peek (look : Look) : Parser Bool := fun cursor =>
  .ok (look cursor.rest, cursor)

/-- The next token, if there is one. -/
def tree : Parser TokenTree := fun cursor =>
  match cursor.rest with
  | [] => Attempt.fail .unexpected
  | t :: rest => .ok (t, { cursor with rest, last := some t.extent })

def keyword (spelling : String) : Parser Unit := do
  unless ← peek (Look.keyword spelling) do refuse
  let _ ← tree

/-- Reads a keyword if it stands ahead, and says whether it did. -/
def keyword? (spelling : String) : Parser Bool := do
  if ← peek (Look.keyword spelling) then
    let _ ← tree
    return true
  return false

/-- Reads `n` tokens. -/
def trees : (n : Nat) → Parser Unit
  | 0 => pure ()
  | n + 1 => do
    let _ ← tree
    trees n

def symbol (text : String) : Parser Unit := do
  unless ← peek (Look.symbol text) do refuse
  trees text.length

/-- Reads a symbol if it stands ahead, and says whether it did. -/
def symbol? (text : String) : Parser Bool := do
  if ← peek (Look.symbol text) then
    trees text.length
    return true
  return false

/-- Any word, with its spelling. -/
def word : Parser String := do
  match ← tree with
  | .ident spelling _ => return spelling
  | _ => refuse

/-- A word that may be a name. -/
def name : Parser String := do
  unless ← peek Look.name do refuse
  word

def lifetime : Parser Unit := do
  unless ← peek Look.lifetime do refuse
  trees 2

/-- A lifetime, if one stands ahead. -/
def lifetime? : Parser Unit := do
  if ← peek Look.lifetime then lifetime

/-- The content of a group, which `content` has to use up. -/
def delimited (delimiter : Delimiter) (content : Parser α) : Parser α := do
  unless ← peek (Look.group delimiter) do refuse
  match ← tree with
  | .group _ inner _ =>
    match content ⟨inner, false, none⟩ with
    | .ok (a, ⟨[], _, _⟩) => return a
    | .ok _ => refuse
    | .error failure => throw failure
  | _ => refuse

/-- A group whose content is not read, with its delimiter, content and stretch. -/
def anyGroup : Parser (Delimiter × List TokenTree × Extent) := do
  match ← tree with
  | .group delimiter content extent => return (delimiter, content, extent)
  | _ => refuse

/-- Notes a token of no place. -/
def displace : Parser Unit :=
  modify fun cursor => { cursor with displaced := true }

/-- Reads something if it can be read, and nothing otherwise. -/
def optional? (p : Parser α) : Parser (Option α) := fun cursor =>
  match p cursor with
  | .ok (a, after) => .ok (some a, after)
  | .error (.error _) => .ok (none, cursor)
  | .error .aborted => .error .aborted

/-- Looks at what `p` would read, without reading it. -/
def ahead (p : Parser α) : Parser α := fun cursor =>
  match p cursor with
  | .ok (a, _) => .ok (a, cursor)
  | .error failure => .error failure

/-- What is read together with the stretch it takes. -/
def placed (p : Parser α) : Parser (α × Extent) := do
  let start := ((← get).rest.head?.map TokenTree.extent).getD ⟨.origin, .origin⟩
  let a ← p
  let stop := (← get).last.getD start
  return (a, ⟨start.start, stop.stop⟩)

/-- Reads all tokens of a text. -/
def parseAll (p : Parser α) (tokens : List TokenTree) : Attempt SyntaxError α := do
  match ← p ⟨tokens, false, none⟩ with
  | (a, ⟨[], _, _⟩) => return a
  | _ => Attempt.fail .unexpected

/-! ## Repetition

A round reads at least one token, so the number of tokens ahead bounds the number of rounds. -/

/-- Reads on with `round`, at most `n` times, until it says that this was the last time. -/
def roundsWithin (round : α → Parser (α × Bool)) : (n : Nat) → α → Parser α
  | 0, _ => refuse
  | n + 1, a => do
    match ← round a with
    | (a, true) => roundsWithin round n a
    | (a, false) => return a

/-- Reads on with `round` until it says that this was the last time. -/
def rounds (round : α → Parser (α × Bool)) (a : α) : Parser α := do
  roundsWithin round ((← get).rest.length + 1) a

/-- Reads `p` until `stop` holds. -/
def untilStop (stop : Look) (p : Parser α) : Parser (List α) := do
  let read ← rounds (fun read => do
    if ← peek stop then return (read, false)
    let a ← p
    return (a :: read, true)) []
  return read.reverse

/-- Reads `p` to the end. -/
def untilEnd (p : Parser α) : Parser (List α) :=
  untilStop Look.nothing p

/-- What a list read with separators looks like. -/
structure Separated (α : Type) where
  items : List α
  /-- Whether a separator follows the last item. -/
  trailing : Bool

/-- Reads `p`, with `separator` between, until `stop` holds. A separator may follow the last one. -/
def separatedUntil (separator : String) (stop : Look) (p : Parser α) : Parser (Separated α) := do
  let read ← rounds (fun (read : Separated α) => do
    if ← peek stop then return (read, false)
    let a ← p
    let items := a :: read.items
    if ← peek stop then return (⟨items, false⟩, false)
    symbol separator
    return (⟨items, true⟩, true)) ⟨[], false⟩
  return ⟨read.items.reverse, read.trailing⟩

/-- Reads `p` to the end, with commas between. -/
def separatedByCommas (p : Parser α) : Parser (Separated α) :=
  separatedUntil "," Look.nothing p

/-- Reads `p` until `stop` holds, going on only after a `separator`. -/
def separatedWhile (separator : String) (stop : Look) (p : Parser α) : Parser Unit :=
  rounds (fun _ => do
    if ← peek stop then return ((), false)
    let _ ← p
    return ((), ← symbol? separator)) ()

end MacroExpansion.Grammar
