import MacroExpansion.Grammar.Pattern

/-!
# Binary operators

Operands are joined by how tightly the operator after them binds. All operators group to the left,
except for assignments.
-/
namespace MacroExpansion.Grammar

/-- The operators, with longer ones ahead of their beginnings. -/
def binaryOperators : List (String × Precedence) :=
  [("+=", .assign), ("-=", .assign), ("*=", .assign), ("/=", .assign), ("%=", .assign),
    ("^=", .assign), ("&=", .assign), ("|=", .assign), ("<<=", .assign), (">>=", .assign),
    ("&&", .and), ("||", .or), ("<<", .shift), (">>", .shift), ("==", .compare), ("<=", .compare),
    ("!=", .compare), (">=", .compare), ("+", .sum), ("-", .sum), ("*", .product), ("/", .product),
    ("%", .product), ("^", .bitXor), ("&", .bitAnd), ("|", .bitOr), ("<", .compare),
    (">", .compare)]

/-- The operator that stands ahead. -/
def operatorAhead? (tokens : List TokenTree) : Option (String × Precedence) :=
  binaryOperators.find? fun operator => Look.symbol operator.1 tokens

/-- How tightly what stands ahead binds. -/
def precedenceAhead (tokens : List TokenTree) : Precedence :=
  match operatorAhead? tokens with
  | some (_, precedence) => precedence
  | none =>
    if Look.butNot (.symbol "=") (.symbol "=>") tokens then .assign
    else if Look.symbol ".." tokens then .range
    else if Look.keyword "as" tokens || Look.colon tokens then .cast
    else .none

/-- A right operand, with the operators after it that `binds` gives to it. -/
def rightOperand (r : Rules) (structs : Bool) (binds : Precedence → Bool) : Parser Unit := do
  let right ← r.operand structs
  let _ ← rounds (fun (right : ExprShape) => do
    let next := precedenceAhead (← get).rest
    if binds next then return (← r.climb structs right next, true)
    return (right, false)) right

/-- What may not follow a cast: it would have to be applied to its result. -/
def afterCast : Look :=
  .anyOf [.butNot (.symbol ".") (.symbol ".."), .symbol "?", .group .bracket, .group .paren]

/-- The type that a value is cast to, or ascribed. -/
def castType (r : Rules) : Parser Unit := do
  let _ ← r.type false
  if ← peek afterCast then refuse

/-- Where the upper end of a range may be left out. -/
def rangeEnd (structs : Bool) : Look :=
  .anyOf [.nothing, .symbol ",", .symbol ";", .butNot (.symbol ".") (.symbol ".."),
    fun tokens => !structs && Look.group .brace tokens]

/-- An equals sign that stands for itself. -/
def assignment : Look :=
  .butNot (.symbol "=") (.either (.symbol "==") (.symbol "=>"))

/-- One operator that binds at least as tightly as `base`, with its right operand; none if no such
operator stands ahead. -/
def climbStep (r : Rules) (structs : Bool) (base : Precedence) : Parser (Option ExprShape) := do
  let within (precedence : Precedence) : Bool := base.rank ≤ precedence.rank
  match (operatorAhead? (← get).rest).filter fun operator => within operator.2 with
  | some (text, precedence) =>
    symbol text
    rightOperand r structs fun next =>
      precedence.rank < next.rank || (next == precedence && precedence == .assign)
    return some .other
  | none =>
    if within .assign && (← peek assignment) then
      symbol "="
      rightOperand r structs fun next => Precedence.assign.rank ≤ next.rank
      return some .other
    else if within .range && (← peek (.symbol "..")) then
      let _ ← rangeLimits
      unless ← peek (rangeEnd structs) do
        rightOperand r structs fun next => Precedence.range.rank < next.rank
      return some .range
    else if within .cast && (← peek (.keyword "as")) then
      keyword "as"
      castType r
      return some .other
    else if within .cast && (← peek .colon) then
      symbol ":"
      castType r
      return some .other
    else return none

/-- Goes on after a left operand. -/
def climb (r : Rules) (structs : Bool) (left : ExprShape) (base : Precedence) : Parser ExprShape :=
  rounds (fun (left : ExprShape) => do
    match ← climbStep r structs base with
    | some joined => return (joined, true)
    | none => return (left, false)) left

end MacroExpansion.Grammar
