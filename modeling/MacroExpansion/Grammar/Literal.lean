import MacroExpansion.Grammar.Cursor
import MacroExpansion.Token.Forest
import MacroExpansion.Token.Magnitude

/-!
# Literals in the grammar

What the grammar asks of a literal. A minus sign is part of a number literal where a literal stands
that is no expression. The grammar has no value for NUL-terminated text and for a token that could
not be read: to ask for one breaks the reading off.
-/
namespace MacroExpansion.Grammar

open Token

inductive LiteralShape where
  | text
  | whole (number : Whole)
  /-- A number with a fraction or an exponent. -/
  | fraction (spelling : List Char)
  | negative
  | other
  deriving DecidableEq, Repr

namespace LiteralShape

/-- The shape of a literal token, if the grammar has a value for it. -/
def ofSpelling? (cs : List Char) : Option LiteralShape :=
  match cs with
  | '"' :: _ => some text
  | 'r' :: _ => some text
  | 'b' :: _ => some other
  | '\'' :: _ => some other
  | c :: _ =>
    if c.isDigit then
      match whole? cs with
      | some number => some (whole number)
      | none => some (fraction cs)
    else none
  | [] => none

end LiteralShape

/-- Whether a minus sign may be made part of a literal token, as it may of every number, whatever
its value and its suffix. -/
def isNegatable (spelling : String) : Bool :=
  spelling.toList.head?.any Char.isDigit

/-- A literal, if one stands ahead. -/
def literal? : Parser (Option LiteralShape) := do
  match (← get).rest with
  | .literal spelling _ :: _ =>
    match LiteralShape.ofSpelling? spelling.toList with
    | some shape =>
      let _ ← tree
      return some shape
    | none => abort
  | .ident "true" _ :: _ =>
    let _ ← tree
    return some .other
  | .ident "false" _ :: _ =>
    let _ ← tree
    return some .other
  | .punct '-' _ _ :: .literal spelling _ :: _ =>
    if isNegatable spelling then
      trees 2
      return some .negative
    else return none
  | _ => return none

/-- Whether a literal stands ahead. -/
def literalAhead : Parser Bool := do
  return (← ahead literal?).isSome

def literal : Parser Unit := do
  if (← literal?).isNone then refuse

/-- The name of a calling convention, if one stands ahead. -/
def text? : Parser Unit := do
  if let some .text ← ahead literal? then
    let _ ← literal?

/-- The positions of fields are below this bound. -/
def indexLimit : Nat := Nat.pow 2 32

/-- Whether a whole number is the position of a field. -/
def isIndex (number : Whole) : Bool :=
  number.suffix.isEmpty && number.value < indexLimit

/-- Whether a text of its own is the position of a field. -/
def isIndexText (cs : List Char) : Bool :=
  match TokenTree.ofText? cs with
  | some [.literal spelling _] => (whole? spelling.toList).any isIndex
  | _ => false

/-- The positions that a number with a point spells, and whether a point is left over. -/
def indexChain (spelling : List Char) : List (List Char) × Bool :=
  let parts := spelling.splitOn '.'
  if parts.getLast? = some [] then (parts.dropLast, true) else (parts, false)

end MacroExpansion.Grammar
