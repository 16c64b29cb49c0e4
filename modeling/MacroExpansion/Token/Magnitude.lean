import MacroExpansion.Token.Number

/-!
# Values of number literals

The value and the suffix of a whole number.
-/
namespace MacroExpansion.Token

open Text

/-- A whole number literal. -/
structure Whole where
  value : Nat
  suffix : List Char
  deriving DecidableEq, Repr

/-- Whether the text after an exponent mark is an exponent, and not the rest of a suffix. -/
def isExponent : (seen : Bool) → List Char → Bool
  | seen, [] => seen
  | seen, c :: cs =>
    if c = '_' then isExponent seen cs
    else if c = '+' ∨ c = '-' then true
    else if c.isDigit then isExponent true cs
    else seen && isIdentifierStart c

/-- The number that digits of a base spell, after `value` from the digits before them. -/
def wholeFrom? (base : Nat) : (value : Nat) → List Char → Option Whole
  | value, [] => some ⟨value, []⟩
  | value, c :: cs =>
    if c = '_' then wholeFrom? base value cs
    else if base = 10 ∧ c = '.' then none
    else if base = 10 ∧ isExponentMark c then
      if isExponent false cs then none else some ⟨value, c :: cs⟩
    else
      match digitValue? c with
      | some digit =>
        if c.isDigit ∨ 10 < base then
          if digit < base then wholeFrom? base (base * value + digit) cs else none
        else some ⟨value, c :: cs⟩
      | none => some ⟨value, c :: cs⟩

/-- The value of a number literal without fraction and exponent. -/
def whole? : List Char → Option Whole
  | '0' :: 'x' :: cs => wholeFrom? 16 0 cs
  | '0' :: 'o' :: cs => wholeFrom? 8 0 cs
  | '0' :: 'b' :: cs => wholeFrom? 2 0 cs
  | cs => wholeFrom? 10 0 cs

end MacroExpansion.Token
