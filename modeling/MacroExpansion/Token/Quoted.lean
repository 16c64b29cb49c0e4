import MacroExpansion.Text.Identifier
import MacroExpansion.Token.Digit

/-!
# Quoted literals

Character, string, byte and NUL-terminated literals. Each form says which characters and which
escapes it admits; the escapes are followed by a small automaton, one character at a time. Every
function gives the text that follows the literal.
-/
namespace MacroExpansion.Token

open Text

/-- What a kind of quoted literal may hold. -/
structure QuotedForm where
  /-- The characters that may stand for themselves. -/
  plain : Char → Bool
  /-- The letters of the escapes that have no digits. -/
  letters : List Char
  /-- The numbers that may be given by two digits. -/
  byteEscape : Nat → Bool
  /-- The numbers that may be given in braces. -/
  codeEscape : Nat → Bool

namespace QuotedForm

def letterEscapes : List Char :=
  ['n', 'r', 't', '\\', '\'', '"']

/-- Text of characters. -/
def text : QuotedForm where
  plain _ := true
  letters := '0' :: letterEscapes
  byteEscape n := n < 0x80
  codeEscape n := n.isValidChar

/-- Text of bytes. -/
def bytes : QuotedForm where
  plain c := c.toNat < 0x80
  letters := '0' :: letterEscapes
  byteEscape _ := true
  codeEscape _ := false

/-- Text that ends at its first NUL, and so holds none. -/
def terminated : QuotedForm where
  plain c := c != '\x00'
  letters := letterEscapes
  byteEscape n := n != 0
  codeEscape n := n != 0 && n.isValidChar

end QuotedForm

/-- Where a scan of quoted content stands. -/
inductive QuotedState where
  | plain
  /-- After a carriage return, which only a line feed may follow. -/
  | lineEnd
  /-- After a backslash. -/
  | escape
  | highDigit
  | lowDigit (high : Nat)
  | openBrace
  | codeDigits (count value : Nat)
  /-- After a backslash at the end of a line: blanks are passed over. -/
  | continued
  | continuedLineEnd
  deriving DecidableEq, Repr

namespace QuotedState

/-- The step from unescaped content. -/
def plainStep (form : QuotedForm) (c : Char) : Option QuotedState :=
  if c = '\r' then some lineEnd
  else if c = '\\' then some escape
  else if form.plain c then some plain
  else none

/-- The next state, or none if the literal does not admit the character. -/
def step (form : QuotedForm) : QuotedState → Char → Option QuotedState
  | plain, c => plainStep form c
  | lineEnd, c => if c = '\n' then some plain else none
  | escape, c =>
    if form.letters.contains c then some plain
    else if c = 'x' then some highDigit
    else if c = 'u' then some openBrace
    else if c = '\n' then some continued
    else if c = '\r' then some continuedLineEnd
    else none
  | highDigit, c => (digitValue? c).map lowDigit
  | lowDigit high, c =>
    match digitValue? c with
    | some low => if form.byteEscape (16 * high + low) then some plain else none
    | none => none
  | openBrace, c => if c = '{' then some (codeDigits 0 0) else none
  | codeDigits count value, c =>
    if c = '_' then if 0 < count then some (codeDigits count value) else none
    else if c = '}' then if 0 < count && form.codeEscape value then some plain else none
    else
      match digitValue? c with
      | some digit => if count < 6 then some (codeDigits (count + 1) (16 * value + digit)) else none
      | none => none
  | continued, c =>
    if c = ' ' ∨ c = '\t' ∨ c = '\n' then some continued
    else if c = '\r' then some continuedLineEnd
    else plainStep form c
  | continuedLineEnd, c => if c = '\n' then some continued else none

/-- Whether a quote would end the literal. -/
def mayEnd (s : QuotedState) : Bool :=
  s = plain ∨ s = continued

end QuotedState

/-- What follows the quote that ends a literal, from within its content. -/
def afterQuoted? (form : QuotedForm) : QuotedState → List Char → Option (List Char)
  | _, [] => none
  | s, c :: cs =>
    if c = '"' && s.mayEnd then some cs
    else (s.step form c).bind fun s => afterQuoted? form s cs

/-- What follows an escape that does not continue a line. -/
def afterEscape? (form : QuotedForm) : QuotedState → List Char → Option (List Char)
  | _, [] => none
  | s, c :: cs =>
    match s.step form c with
    | some .plain => some cs
    | some .continued => none
    | some .continuedLineEnd => none
    | some s => afterEscape? form s cs
    | none => none

/-- What follows a single quote. -/
def afterApostrophe? : List Char → Option (List Char)
  | '\'' :: cs => some cs
  | _ => none

/-- What follows a literal of one character, from within its content. That character may be a
quote. -/
def afterCharacter? (form : QuotedForm) : List Char → Option (List Char)
  | [] => none
  | '\\' :: cs => (afterEscape? form .escape cs).bind afterApostrophe?
  | c :: cs => if form.plain c then afterApostrophe? cs else none

/-- The marks that may surround a raw literal are at most so many. -/
def rawMarkLimit : Nat := 255

/-- What follows the quote and the marks that end a raw literal. -/
def afterRawContent? (form : QuotedForm) (marks : Nat) :
    (lineEnd : Bool) → List Char → Option (List Char)
  | _, [] => none
  | true, c :: cs => if c = '\n' then afterRawContent? form marks false cs else none
  | false, c :: cs =>
    if c = '"' && (List.replicate marks '#').isPrefixOf cs then some (cs.drop marks)
    else if c = '\r' then afterRawContent? form marks true cs
    else if form.plain c then afterRawContent? form marks false cs
    else none

/-- What follows a raw literal, from the marks before its first quote on. -/
def afterRaw? (form : QuotedForm) (cs : List Char) : Option (List Char) :=
  let marks := (cs.takeWhile (· == '#')).length
  match cs.drop marks with
  | '"' :: content =>
    if marks ≤ rawMarkLimit then afterRawContent? form marks false content else none
  | _ => none

/-- What follows a quoted literal, its suffix not counted. -/
def afterQuotes? : List Char → Option (List Char)
  | '"' :: cs => afterQuoted? .text .plain cs
  | 'r' :: cs => afterRaw? .text cs
  | 'b' :: '"' :: cs => afterQuoted? .bytes .plain cs
  | 'b' :: 'r' :: cs => afterRaw? .bytes cs
  | 'b' :: '\'' :: cs => afterCharacter? .bytes cs
  | 'c' :: '"' :: cs => afterQuoted? .terminated .plain cs
  | 'c' :: 'r' :: cs => afterRaw? .terminated cs
  | '\'' :: cs => afterCharacter? .text cs
  | _ => none

/-- What follows a quoted literal. A name directly after the quotes is its suffix. -/
def afterQuotedLiteral? (cs : List Char) : Option (List Char) :=
  (afterQuotes? cs).map fun rest => (afterIdentifier? rest).getD rest

end MacroExpansion.Token
