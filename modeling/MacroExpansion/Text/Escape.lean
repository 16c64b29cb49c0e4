import MacroExpansion.Text.Identifier
import MacroExpansion.Text.PrintableTable

/-!
# String literals of arbitrary text

How a text is written as a string literal: control characters, quotes and backslashes are escaped,
and so is every character that would show nothing of its own or would join the one before it.
-/
namespace MacroExpansion.Text

/-- A character by its number, in lower-case hexadecimal digits. -/
def numericEscape (c : Char) : List Char :=
  ['\\', 'u', '{'] ++ Nat.toDigits 16 c.toNat ++ ['}']

/-- A character within a literal; `next` is the character after it. A NUL ahead of an octal digit
is written with two digits, so that the digit is not taken for a part of it. -/
def escapeChar (c : Char) (next : Option Char) : List Char :=
  match c with
  | '\x00' =>
    if next.any fun d => '0' ≤ d ∧ d ≤ '7' then ['\\', 'x', '0', '0'] else ['\\', '0']
  | '\t' => ['\\', 't']
  | '\r' => ['\\', 'r']
  | '\n' => ['\\', 'n']
  | '"' => ['\\', '"']
  | '\\' => ['\\', '\\']
  | c =>
    if inRanges c.toNat extendingRanges || inRanges c.toNat unprintableRanges then numericEscape c
    else [c]

def escape : List Char → List Char
  | [] => []
  | c :: cs => escapeChar c cs.head? ++ escape cs

/-- The string literal of a text. -/
def stringLiteral (cs : List Char) : List Char :=
  '"' :: escape cs ++ ['"']

end MacroExpansion.Text
