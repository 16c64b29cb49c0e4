import MacroExpansion.Grammar.Generics
import MacroExpansion.Grammar.Statement
import MacroExpansion.Grammar.Type

/-!
# Visibility, signatures and bodies of functions
-/
namespace MacroExpansion.Grammar

/-- The parentheses after `pub`, if they restrict it. -/
def pubScope? : Parser Unit := do
  let alone : Look := .both (.anyKeyword ["crate", "self", "super"]) (.second .nothing)
  if ← peek (.inside .paren alone) then
    trees 1
  else if ← peek (.inside .paren (.keyword "in")) then
    delimited .paren do
      keyword "in"
      let _ ← plainPath

/-- A visibility; says whether one is given. -/
def visibility? : Parser Bool := do
  if ← keyword? "pub" then
    pubScope?
    return true
  if ← peek (.butNot (.keyword "crate") (.second (.symbol "::"))) then
    trees 1
    return true
  return false

/-- Whether a function's signature stands ahead. -/
def signatureAhead : Parser Bool :=
  ahead do
    let _ ← keyword? "const"
    let _ ← keyword? "async"
    let _ ← keyword? "unsafe"
    callingConvention?
    peek (.keyword "fn")

/-- The receiver of a method. -/
def receiver : Parser Unit := do
  if ← symbol? "&" then lifetime?
  let _ ← keyword? "mut"
  keyword "self"

/-- Whether a receiver stands ahead, without a type after it. -/
def receiverAhead : Parser Bool :=
  ahead do
    match ← optional? receiver with
    | some _ => return !(← peek (.symbol ":"))
    | none => return false

/-- An argument of a function; says whether it is a receiver. -/
def functionArgument (r : Rules) : Parser Bool := do
  let _ ← outerAttributes
  if ← symbol? "..." then return false
  let _ ← outerAttributes
  if ← receiverAhead then
    receiver
    return true
  if ← peek (.both .name (.second (.symbol "<"))) then
    let _ ← r.type true
  else
    alternatives r
    symbol ":"
    unless ← symbol? "..." do
      let _ ← r.type true
  return false

/-- The arguments of a function. Only the first may be a receiver. -/
def functionArguments (r : Rules) : Parser Unit := do
  let arguments ← separatedByCommas (functionArgument r)
  if (arguments.items.drop 1).contains true then refuse

/-- The signature of a function, with its name. -/
def signature (r : Rules) : Parser String := do
  let _ ← keyword? "const"
  let _ ← keyword? "async"
  let _ ← keyword? "unsafe"
  callingConvention?
  keyword "fn"
  let spelling ← name
  generics? r
  delimited .paren (functionArguments r)
  let _ ← returnType? r true
  let _ ← whereClause? r
  return spelling

end MacroExpansion.Grammar
