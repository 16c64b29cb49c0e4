import MacroExpansion.Text.Identifier
import MacroExpansion.Token.Digit

/-!
# Number literals

A number with a fraction or an exponent is tried first, then a whole number. A name directly after
the digits is a suffix of the number. Every function gives the text that follows.
-/
namespace MacroExpansion.Token

open Text

/-- A digit or a separator of digits. -/
def isDigitPart (c : Char) : Bool :=
  c.isDigit || c == '_'

def dropUnderscores (cs : List Char) : List Char :=
  cs.dropWhile (· == '_')

/-- What follows the sign and the digits of an exponent, if it has a digit. -/
def afterExponent? (cs : List Char) : Option (List Char) :=
  let digits :=
    match dropUnderscores cs with
    | '+' :: rest => dropUnderscores rest
    | '-' :: rest => dropUnderscores rest
    | rest => rest
  match digits with
  | c :: rest => if c.isDigit then some (rest.dropWhile isDigitPart) else none
  | [] => none

/-- Whether a point with this text after it is no decimal point: two points form a range, and a
point ahead of a name selects a field. -/
def endsNumber : List Char → Bool
  | c :: _ => c == '.' || isIdentifierStart c
  | [] => false

def isExponentMark (c : Char) : Bool :=
  c == 'e' || c == 'E'

/-- What follows the digits of a number that has a fraction or an exponent. An exponent without
digits is left to the suffix if there is a fraction. -/
def afterFractionDigits? : List Char → Option (List Char)
  | [] => none
  | first :: cs =>
    if first.isDigit then
      match cs.dropWhile isDigitPart with
      | '.' :: rest =>
        if endsNumber rest then none
        else
          let fraction := rest.dropWhile isDigitPart
          match fraction with
          | c :: exponent =>
            if isExponentMark c then some ((afterExponent? exponent).getD fraction)
            else some fraction
          | [] => some []
      | c :: exponent => if isExponentMark c then afterExponent? exponent else none
      | [] => none
    else none

/-- What follows the digits of a whole number. A decimal digit that the base lacks is an error; a
letter that it lacks ends the digits. -/
def afterDigits? (base : Nat) : (seen : Bool) → List Char → Option (List Char)
  | seen, [] => if seen then some [] else none
  | seen, c :: cs =>
    if c = '_' then if !seen && base = 10 then none else afterDigits? base seen cs
    else
      match digitValue? c with
      | some value =>
        if value < base then afterDigits? base true cs
        else if c.isDigit then none
        else if seen then some (c :: cs) else none
      | none => if seen then some (c :: cs) else none

/-- What follows a whole number, its suffix not counted. -/
def afterWholeDigits? : List Char → Option (List Char)
  | '0' :: 'x' :: cs => afterDigits? 16 false cs
  | '0' :: 'o' :: cs => afterDigits? 8 false cs
  | '0' :: 'b' :: cs => afterDigits? 2 false cs
  | cs => afterDigits? 10 false cs

/-- What follows the suffix of a number; after it no identifier may go on. -/
def afterNumberSuffix? (cs : List Char) : Option (List Char) :=
  let rest := (afterIdentifier? cs).getD cs
  if rest.head?.any isIdentifierPart then none else some rest

/-- What follows a number literal. -/
def afterNumber? (cs : List Char) : Option (List Char) :=
  ((afterFractionDigits? cs).bind afterNumberSuffix?).or
    ((afterWholeDigits? cs).bind afterNumberSuffix?)

end MacroExpansion.Token
