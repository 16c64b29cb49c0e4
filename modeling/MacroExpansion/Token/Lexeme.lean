import MacroExpansion.Text.Escape
import MacroExpansion.Text.Preamble
import MacroExpansion.Token.Number
import MacroExpansion.Token.Quoted
import MacroExpansion.Token.Tree

/-!
# Lexemes

The flat sequence of names, punctuation, literals and delimiters of a text, each with the stretch
it takes. A doc comment stands for the attribute `#[doc = "…"]`, or `#![doc = "…"]` if it is an
inner one: seven or eight lexemes that all take the stretch of the comment.
-/
namespace MacroExpansion

inductive Lexeme where
  | ident (spelling : String)
  | punct (char : Char) (joint : Bool)
  | literal (spelling : String)
  | opening (delimiter : Delimiter)
  | closing (delimiter : Delimiter)
  deriving DecidableEq, Repr

/-- A lexeme in its place. -/
structure PlacedLexeme where
  lexeme : Lexeme
  extent : Extent
  deriving DecidableEq, Repr

namespace Lexeme

open Text Token

/-- The part of a text in front of what remains of it. -/
def consumed (cs rest : List Char) : List Char :=
  cs.take (cs.length - rest.length)

/-- The literal that stands for a token that could not be read. -/
def unreadable : List Char :=
  ['(', '/', '*', 'E', 'R', 'R', 'O', 'R', '*', '/', ')']

/-- What follows the literal that a text starts with. -/
def afterLiteral? (cs : List Char) : Option (List Char) :=
  (afterQuotedLiteral? cs).or (afterNumber? cs)

/-- The words that have no raw spelling. -/
def neverRaw : List (List Char) :=
  [['_'], ['s', 'u', 'p', 'e', 'r'], ['s', 'e', 'l', 'f'], ['S', 'e', 'l', 'f'],
    ['c', 'r', 'a', 't', 'e']]

/-- What follows the name that a text starts with. -/
def afterName? : List Char → Option (List Char)
  | 'r' :: '#' :: cs =>
    (afterIdentifier? cs).filter fun rest => !neverRaw.contains (consumed cs rest)
  | cs => afterIdentifier? cs

/-- The starts of literals, which are no names even if the literal is malformed. -/
def literalStarts : List (List Char) :=
  [['r', '"'], ['r', '#', '"'], ['r', '#', '#'], ['b', '"'], ['b', '\''], ['b', 'r', '"'],
    ['b', 'r', '#'], ['c', '"'], ['c', 'r', '"'], ['c', 'r', '#']]

def startsLiteral (cs : List Char) : Bool :=
  literalStarts.any fun start => start.isPrefixOf cs

def punctuation : List Char :=
  ['~', '!', '@', '#', '$', '%', '^', '&', '*', '-', '=', '+', '|', ';', ':', ',', '<', '.', '>',
    '/', '?', '\'']

/-- Whether a text starts with a comment. -/
def startsComment : List Char → Bool
  | '/' :: '/' :: _ => true
  | '/' :: '*' :: _ => true
  | _ => false

/-- Whether a text starts with punctuation. -/
def startsPunctuation (cs : List Char) : Bool :=
  !startsComment cs && cs.head?.any fun c => punctuation.contains c

/-- Whether the text after a quote is a lifetime's name: no quote may follow it, and a mark of a raw
literal only if the name is raw. -/
def startsLifetime (cs : List Char) : Bool :=
  match afterName? cs with
  | none => false
  | some ('\'' :: _) => false
  | some ('#' :: _) => ['r', '#'].isPrefixOf cs
  | some _ => true

/-- The punctuation that a text starts with, and what follows it. -/
def punct? : List Char → Option (Lexeme × List Char)
  | '\'' :: cs => if startsLifetime cs then some (punct '\'' true, cs) else none
  | c :: cs =>
    if startsPunctuation (c :: cs) then some (punct c (startsPunctuation cs), cs) else none
  | [] => none

/-- The name that a text starts with, and what follows it. -/
def name? (cs : List Char) : Option (Lexeme × List Char) :=
  if startsLiteral cs then none
  else (afterName? cs).map fun rest => (ident (String.ofList (consumed cs rest)), rest)

/-- The literal that a text starts with, and what follows it. -/
def literal? (cs : List Char) : Option (Lexeme × List Char) :=
  (afterLiteral? cs).map fun rest => (literal (String.ofList (consumed cs rest)), rest)

/-- The delimiter that a text starts with, and what follows it. -/
def delimiter? : List Char → Option (Lexeme × List Char)
  | '(' :: cs => some (opening .paren, cs)
  | '[' :: cs => some (opening .bracket, cs)
  | '{' :: cs => some (opening .brace, cs)
  | ')' :: cs => some (closing .paren, cs)
  | ']' :: cs => some (closing .bracket, cs)
  | '}' :: cs => some (closing .brace, cs)
  | _ => none

/-- The lexeme that a text starts with, and what follows it. -/
def plain? (cs : List Char) : Option (Lexeme × List Char) :=
  if unreadable.isPrefixOf cs then
    some (literal (String.ofList unreadable), cs.drop unreadable.length)
  else (((delimiter? cs).or (literal? cs)).or (punct? cs)).or (name? cs)

/-- A doc comment. -/
structure DocComment where
  /-- Whether it belongs to what it stands in, and not to what follows it. -/
  inner : Bool
  content : List Char
  rest : List Char

/-- The line that a text starts with, without its line end. -/
def lineContent : List Char → List Char
  | [] => []
  | '\n' :: _ => []
  | '\r' :: '\n' :: _ => []
  | c :: cs => c :: lineContent cs

/-- A doc comment to the end of the line. -/
def lineDoc (inner : Bool) (cs : List Char) : DocComment :=
  ⟨inner, lineContent cs, fromLineBreak cs⟩

/-- A doc comment up to the end of the block comment; `cs` follows the opening. -/
def blockDoc? (inner : Bool) (cs : List Char) : Option DocComment :=
  (afterNestedComment? 1 cs).map fun rest =>
    let body := consumed cs rest
    ⟨inner, body.take (body.length - 2), rest⟩

/-- The doc comment that a text starts with. -/
def docComment? : List Char → Option DocComment
  | '/' :: '/' :: '!' :: cs => some (lineDoc true cs)
  | '/' :: '*' :: '!' :: cs => blockDoc? true cs
  | '/' :: '/' :: '/' :: '/' :: _ => none
  | '/' :: '/' :: '/' :: cs => some (lineDoc false cs)
  | '/' :: '*' :: '*' :: '*' :: _ => none
  | '/' :: '*' :: '*' :: cs => blockDoc? false cs
  | _ => none

/-- Whether a text has a carriage return that no line feed follows. -/
def hasLoneReturn : List Char → Bool
  | [] => false
  | '\r' :: '\n' :: cs => hasLoneReturn cs
  | '\r' :: _ => true
  | _ :: cs => hasLoneReturn cs

/-- The attribute that a doc comment stands for. -/
def ofDocComment (doc : DocComment) : List Lexeme :=
  let mark := if doc.inner then [punct '#' false, punct '!' false] else [punct '#' false]
  mark ++ [opening .bracket, ident "doc", punct '=' false,
    literal (String.ofList (stringLiteral doc.content)), closing .bracket]

/-- The lexemes at the start of a text without leading separators, and what follows them. -/
def next? (cs : List Char) : Option (List Lexeme × List Char) :=
  match docComment? cs with
  | some doc => if hasLoneReturn doc.content then none else some (ofDocComment doc, doc.rest)
  | none => (plain? cs).map fun (lexeme, rest) => ([lexeme], rest)

/-- The lexemes of a text that starts at `here`, in at most `n` steps. -/
def scanWithin : (n : Nat) → (here : Position) → List Char → Option (List PlacedLexeme)
  | 0, _, _ => none
  | n + 1, here, cs =>
    let text := skipSeparators cs
    let start := here.after (consumed cs text)
    if text.isEmpty then some []
    else
      match next? text with
      | none => none
      | some (lexemes, rest) =>
        let stop := start.after (consumed text rest)
        (scanWithin n stop rest).map fun later =>
          lexemes.map (fun lexeme => ⟨lexeme, ⟨start, stop⟩⟩) ++ later

/-- The lexemes of a text, or none if some part of it is no lexeme. One byte-order mark at the start
is passed over, but counts for the positions. -/
def scan? (cs : List Char) : Option (List PlacedLexeme) :=
  match cs with
  | [] => some []
  | c :: rest =>
    if c = byteOrderMark then scanWithin (rest.length + 1) (Position.origin.next c) rest
    else scanWithin (cs.length + 1) .origin cs

end Lexeme

end MacroExpansion
