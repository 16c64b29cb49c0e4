import MacroExpansion.Grammar.Path

/-!
# Patterns

A single pattern, and alternatives that are separated by `|`.
-/
namespace MacroExpansion.Grammar

/-- The operator of a range, of two or three characters; says whether it may lack an upper end. -/
def rangeLimits : Parser Bool := do
  if ← symbol? "..=" then return false
  if ← symbol? "..." then return false
  symbol ".."
  return true

/-- A `|` that stands for itself. -/
def bar : Look :=
  .butNot (.butNot (.symbol "|") (.symbol "||")) (.symbol "|=")

/-- More alternatives, if there are any. -/
def moreAlternatives (r : Rules) : Parser Unit := do
  let _ ← untilStop (fun tokens => !bar tokens) do
    symbol "|"
    r.pattern

/-- Alternatives. -/
def alternatives (r : Rules) : Parser Unit := do
  r.pattern
  moreAlternatives r

/-- Alternatives, with a `|` allowed ahead of the first. -/
def openAlternatives (r : Rules) : Parser Unit := do
  let _ ← symbol? "|"
  alternatives r

/-- Where an end of a range is left out. -/
def boundOmitted : Look :=
  .anyOf [.nothing, .symbol "|", .symbol "=", .colon, .symbol ",", .symbol ";"]

/-- A block that is evaluated while compiling. -/
def constBlock (r : Rules) : Parser Unit := do
  keyword "const"
  let _ ← attributedBlock r

/-- A value that a pattern compares with, or an end of a range; says whether there is one. -/
def patternValue? (r : Rules) : Parser Bool := do
  if ← peek boundOmitted then return false
  let _ ← symbol? "-"
  if ← literalAhead then literal
  else if ← peek (.either .pathStart (.symbol "<")) then
    let _ ← outerAttributes
    let _ ← qualifiedPath r true
  else constBlock r
  return true

/-- A field's name or position; says whether it is a name. -/
def member : Parser Bool := do
  if ← peek .name then
    let _ ← name
    return true
  match ← literal? with
  | some (.whole number) => if isIndex number then return false else refuse
  | _ => refuse

def fieldPattern (r : Rules) : Parser Unit := do
  let boxed ← keyword? "box"
  let borrowed ← keyword? "ref"
  let mutable ← keyword? "mut"
  if boxed || borrowed || mutable then
    let _ ← name
  else
    let named ← member
    if named then
      if ← symbol? ":" then openAlternatives r
    else
      symbol ":"
      openAlternatives r

def structPattern (r : Rules) : Parser Unit :=
  delimited .brace do
    rounds (fun _ => do
      if ← peek .nothing then return ((), false)
      let _ ← outerAttributes
      if ← symbol? ".." then return ((), false)
      fieldPattern r
      if ← peek .nothing then return ((), false)
      symbol ","
      return ((), true)) ()

def tuplePattern (r : Rules) : Parser Unit := do
  let _ ← delimited .paren (separatedByCommas (openAlternatives r))

/-- A pattern that starts with a path: an invocation, a structure, a tuple, a range or a
constant. -/
def pathPattern (r : Rules) : Parser Unit := do
  let before := (← get).displaced
  let start ← here
  let (qualified, path) ← qualifiedPath r true
  let call ← peek (.butNot (.symbol "!") (.symbol "!="))
  if !qualified && path.isPlain && call then
    let _ ← callOf path.toMacroPath start
  else if ← peek (.group .brace) then
    structPattern r
    if qualified then modify fun cursor => { cursor with displaced := before }
  else if ← peek (.group .paren) then
    tuplePattern r
    if qualified then modify fun cursor => { cursor with displaced := before }
  else if ← peek (.symbol "..") then
    let _ ← rangeLimits
    unless ← patternValue? r do
      modify fun cursor => { cursor with displaced := before }

/-- A value or a range that starts with one. -/
def valuePattern (r : Rules) : Parser Unit := do
  let before := (← get).displaced
  let _ ← patternValue? r
  if ← peek (.symbol "..") then
    let _ ← rangeLimits
    unless ← patternValue? r do
      modify fun cursor => { cursor with displaced := before }

/-- A name that is bound. -/
def bindingPattern (r : Rules) : Parser Unit := do
  let _ ← keyword? "ref"
  let _ ← keyword? "mut"
  let _ ← word
  if ← symbol? "@" then r.pattern

/-- A range without lower end, or what stands for the rest. -/
def openRangePattern (r : Rules) : Parser Unit := do
  let before := (← get).displaced
  let open? ← rangeLimits
  if ← patternValue? r then modify fun cursor => { cursor with displaced := before }
  else unless open? do refuse

/-- What after a name shows that it starts a path pattern. -/
def nameOfPath : Look :=
  .both .name (.second (.anyOf [.symbol "::", .symbol "!", .group .brace, .group .paren]))

/-- Whether a name and a range operator with something after it stand ahead. -/
def nameOfRange : Parser Bool := do
  unless ← peek (.both .name (.second (.symbol ".."))) do return false
  ahead do
    let _ ← name
    let _ ← rangeLimits
    return !(← peek (.either .nothing (.symbol ",")))

/-- What shows that a path pattern stands ahead, a range that starts with a name apart. -/
def pathPatternStart : Look :=
  .anyOf [nameOfPath, .both (.keyword "self") (.second (.symbol "::")), .symbol "::", .symbol "<",
    .anyKeyword ["Self", "super", "crate"]]

/-- A single pattern. -/
def pattern (r : Rules) : Parser Unit := do
  let range ← nameOfRange
  if range || (← peek pathPatternStart) then
    pathPattern r
  else if ← keyword? "_" then return
  else if ← keyword? "box" then r.pattern
  else if ← peek (.symbol "-") then valuePattern r
  else if ← literalAhead then valuePattern r
  else if ← peek (.keyword "const") then valuePattern r
  else if ← peek (.either .name (.anyKeyword ["ref", "mut", "self"])) then bindingPattern r
  else if ← symbol? "&" then
    let _ ← keyword? "mut"
    r.pattern
  else if ← peek (.group .paren) then tuplePattern r
  else if ← peek (.group .bracket) then
    let _ ← delimited .bracket (separatedByCommas (openAlternatives r))
  else if ← peek (.butNot (.symbol "..") (.symbol "...")) then openRangePattern r
  else refuse

end MacroExpansion.Grammar
