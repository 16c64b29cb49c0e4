import MacroExpansion.Grammar.Signature

/-!
# Members of traits, implementations and foreign blocks

Of the members of an implementation the functions are kept, for what stands in their bodies.
-/
namespace MacroExpansion.Grammar

/-- Where the where clause of a type alias stands. -/
inductive WherePlace where
  | beforeDefinition
  | afterDefinition
  | either
  deriving DecidableEq, Repr

/-- What was given of a type alias. -/
structure AliasShape where
  spelling : String
  bounded : Bool
  defined : Bool

/-- The bounds of a type alias. -/
def aliasBounds (r : Rules) : Parser Unit := do
  let _ ← separatedUntil "+"
    (.anyOf [.keyword "where", .symbol "=", .symbol ";"]) r.bound

/-- A type alias or an associated type, after its visibility. -/
def aliasItem (r : Rules) (place : WherePlace) : Parser AliasShape := do
  keyword "type"
  let spelling ← name
  generics? r
  let bounded ← symbol? ":"
  if bounded then aliasBounds r
  let constrained ← if place = .afterDefinition then pure false else whereClause? r
  let defined ← symbol? "="
  if defined then
    let _ ← r.type true
  unless place = .beforeDefinition || constrained do
    let _ ← whereClause? r
  symbol ";"
  return ⟨spelling, bounded, defined⟩

/-- The start of an invocation in place of a member or an item. -/
def callStart : Look :=
  .anyOf [.name, .anyKeyword ["self", "super", "crate"], .symbol "::"]

/-- A name that may be left open by an underscore. -/
def nameOrUnderscore : Parser String := do
  if ← keyword? "_" then return "_"
  name

/-- A type, and a value where one is given. -/
def typedValue? (r : Rules) : Parser Bool := do
  symbol ":"
  let _ ← r.type true
  let given ← symbol? "="
  if given then
    let _ ← r.expression true
  symbol ";"
  return given

def foreignMember (r : Rules) : Parser Unit := do
  let _ ← outerAttributes
  let visible ← visibility?
  if ← signatureAhead then
    let _ ← signature r
    if ← peek (.group .brace) then
      let _ ← attributedBlock r
    else symbol ";"
  else if ← keyword? "static" then
    let _ ← keyword? "mut"
    let _ ← name
    let _ ← typedValue? r
  else if ← peek (.keyword "type") then
    let _ ← aliasItem r .either
  else if !visible && (← peek callStart) then
    let _ ← macroCallItem
  else refuse

def traitMember (r : Rules) : Parser Unit := do
  let _ ← outerAttributes
  let visible ← visibility?
  let optional ← keyword? "default"
  if ← signatureAhead then
    let _ ← signature r
    unless ← symbol? ";" do
      let _ ← attributedBlock r
  else if ← keyword? "const" then
    let _ ← nameOrUnderscore
    let _ ← typedValue? r
  else if ← peek (.keyword "type") then
    let _ ← aliasItem r .afterDefinition
  else if !visible && !optional && (← peek callStart) then
    let _ ← macroCallItem
  else refuse

/-- The keyword of a member that may be specialized. An invocation may have the same name. -/
def specializable? : Parser Bool := do
  if ← peek (.butNot (.keyword "default") (.second (.symbol "!"))) then keyword? "default"
  else return false

/-- A member of an implementation. The body of a function is kept; it is empty if none is given. -/
def implementationMember (r : Rules) : Parser (Option (List Statement)) := do
  let _ ← outerAttributes
  let visible ← visibility?
  let specializable ← specializable?
  if ← signatureAhead then
    let _ ← signature r
    if ← symbol? ";" then return some []
    let (_, body) ← attributedBlock r
    return some body
  else if ← keyword? "const" then
    let _ ← nameOrUnderscore
    let _ ← typedValue? r
  else if ← peek (.keyword "type") then
    let _ ← aliasItem r .afterDefinition
  else if !visible && !specializable && (← peek callStart) then
    let _ ← macroCallItem
  else refuse
  return none

end MacroExpansion.Grammar
