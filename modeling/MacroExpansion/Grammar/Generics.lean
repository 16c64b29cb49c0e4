import MacroExpansion.Grammar.Path

/-!
# Generic parameters and where clauses
-/
namespace MacroExpansion.Grammar

/-- A constant among parameters: a literal, a name or a block. -/
def constantArgument (r : Rules) : Parser Unit := do
  if ← literalAhead then literal
  else if ← peek .name then
    let _ ← name
  else
    let _ ← attributedBlock r

/-- The bounds of a type parameter; says whether one of them is conditionally constant, `~const`. -/
def parameterBounds (r : Rules) : Parser Bool :=
  rounds (fun (conditional : Bool) => do
    if ← peek (.either entryEnd (.symbol "=")) then return (conditional, false)
    let next ← peek (.both (.symbol "~") (.second (.keyword "const")))
    if next then trees 2
    let _ ← r.bound
    return (conditional || next, ← symbol? "+")) false

/-- A type parameter. Conditionally constant bounds are kept as they are written. -/
def typeParameter (r : Rules) : Parser Unit := do
  let _ ← name
  let bounded ← symbol? ":"
  let before := (← get).displaced
  let conditional ← if bounded then parameterBounds r else pure false
  if ← symbol? "=" then
    let _ ← r.type true
  if conditional then modify fun cursor => { cursor with displaced := before }

def constantParameter (r : Rules) : Parser Unit := do
  keyword "const"
  let _ ← name
  symbol ":"
  let _ ← r.type true
  if ← symbol? "=" then constantArgument r

/-- A generic parameter; says whether it is a lifetime. -/
def parameter (r : Rules) : Parser Bool := do
  let _ ← outerAttributes
  if ← peek .lifetime then
    lifetimeParameter
    return true
  if ← peek .name then typeParameter r
  else if ← peek (.keyword "const") then constantParameter r
  else keyword "_"
  return false

/-- Generic parameters in angle brackets, if there are any. -/
def generics? (r : Rules) : Parser Unit := do
  if ← symbol? "<" then
    let parameters ← separatedUntil "," (.symbol ">") (parameter r)
    symbol ">"
    noteOrder parameters

/-- Where the predicates of a where clause, or the bounds of one, end. -/
def clauseEnd : Look :=
  .anyOf [.nothing, .group .brace, .symbol ",", .symbol ";", .colon, .symbol "="]

def predicate (r : Rules) : Parser Unit := do
  if ← peek (.both .lifetime (.second (.symbol ":"))) then
    lifetime
    symbol ":"
    separatedWhile "+" (.either clauseEnd (.symbol ":")) lifetime
  else
    let _ ← binder?
    let _ ← r.type true
    symbol ":"
    boundsUpTo r clauseEnd

def whereClause (r : Rules) : Parser Unit := do
  keyword "where"
  separatedWhile "," clauseEnd (predicate r)

/-- A where clause, if one stands ahead; says whether it does. -/
def whereClause? (r : Rules) : Parser Bool := do
  if ← peek (.keyword "where") then
    whereClause r
    return true
  return false

end MacroExpansion.Grammar
