import MacroExpansion.Text.IdentifierTable

/-!
# Identifiers in text

An identifier starts with an underscore or a character of the XID_Start property, and goes on with
characters of XID_Continue.
-/
namespace MacroExpansion.Text

/-- Whether a number lies in one of some ranges in ascending order. -/
def inRanges (n : Nat) : List (Nat × Nat) → Bool
  | [] => false
  | (low, high) :: rest => if n ≤ high then decide (low ≤ n) else inRanges n rest

def isIdentifierStart (c : Char) : Bool :=
  if c.toNat < 0x80 then c.isAlpha || c == '_' else inRanges c.toNat identifierStartRanges

def isIdentifierPart (c : Char) : Bool :=
  if c.toNat < 0x80 then c.isAlphanum || c == '_' else inRanges c.toNat identifierPartRanges

/-- What follows the identifier that a text starts with. -/
def afterIdentifier? : List Char → Option (List Char)
  | [] => none
  | c :: cs => if isIdentifierStart c then some (cs.dropWhile isIdentifierPart) else none

end MacroExpansion.Text
