import MacroExpansion.Grammar.Operator

/-!
# Operands

An operand is an atom with operators ahead of it and accesses, calls and indices after it.
-/
namespace MacroExpansion.Grammar

/-- An expression in front of a block, where a literal of a structure has to be parenthesized. -/
def condition (r : Rules) : Parser Unit := do
  let _ ← r.expression false

def fieldValue (r : Rules) : Parser Unit := do
  let _ ← outerAttributes
  let named ← member
  let given ← if named then symbol? ":" else (do symbol ":"; return true)
  if given then
    let _ ← r.expression true

/-- The braces of a literal of a structure. -/
def structFields (r : Rules) : Parser Unit :=
  delimited .brace do
    rounds (fun _ => do
      if ← peek .nothing then return ((), false)
      if ← symbol? ".." then
        unless ← peek .nothing do
          let _ ← r.expression true
        return ((), false)
      fieldValue r
      if ← peek .nothing then return ((), false)
      symbol ","
      return ((), true)) ()

/-- An atom that starts with a path. -/
def pathExpression (r : Rules) (structs : Bool) : Parser ExprShape := do
  let start ← here
  let (qualified, path) ← qualifiedPath r true
  let call ← peek (.butNot (.symbol "!") (.symbol "!="))
  if !qualified && path.isPlain && call then
    return .call (← callOf path.toMacroPath start)
  if structs && (← peek (.group .brace)) then
    structFields r
    return if qualified then .verbatim else .other
  return .other

def closureArgument (r : Rules) : Parser Unit := do
  let _ ← outerAttributes
  r.pattern
  if ← symbol? ":" then
    let _ ← r.type true

/-- A closure. One that is general over lifetimes or constant is kept as it is written. -/
def closure (r : Rules) (structs : Bool) : Parser ExprShape := do
  let general ← binder?
  let constant ← keyword? "const"
  let _ ← keyword? "static"
  let _ ← keyword? "async"
  let _ ← keyword? "move"
  symbol "|"
  let _ ← separatedUntil "," (.symbol "|") (closureArgument r)
  symbol "|"
  if ← symbol? "->" then
    let _ ← r.type true
    r.block
  else
    let _ ← r.expression structs
  return if general || constant then .verbatim else .other

/-- What is between the parentheses of a group or tuple. -/
def tupleOrGroup (r : Rules) : Parser Unit := do
  let _ ← delimited .paren (separatedByCommas (r.expression true))

def arrayOrRepeat (r : Rules) : Parser Unit :=
  delimited .bracket do
    if ← peek .nothing then return
    let _ ← r.expression true
    if ← symbol? ";" then
      let _ ← r.expression true
    else unless ← peek .nothing do
      symbol ","
      let _ ← separatedByCommas (r.expression true)

/-- The condition that a value has the form of a pattern. -/
def letCondition (r : Rules) : Parser Unit := do
  keyword "let"
  openAlternatives r
  symbol "="
  let left ← r.operand false
  let _ ← r.climb false left .compare

/-- A conditional, with any number of `else if` in it. -/
def conditional (r : Rules) : Parser Unit :=
  rounds (fun _ => do
    keyword "if"
    condition r
    r.block
    unless ← keyword? "else" do return ((), false)
    if ← peek (.keyword "if") then return ((), true)
    r.block
    return ((), false)) ()

def whileLoop (r : Rules) : Parser Unit := do
  keyword "while"
  condition r
  let _ ← attributedBlock r

def forLoop (r : Rules) : Parser Unit := do
  keyword "for"
  openAlternatives r
  keyword "in"
  condition r
  let _ ← attributedBlock r

def endlessLoop (r : Rules) : Parser Unit := do
  keyword "loop"
  let _ ← attributedBlock r

/-- An arm of a `match`. A comma has to follow it, unless it is the last or its result is a
block. -/
def matchArm (r : Rules) : Parser Unit := do
  let _ ← outerAttributes
  openAlternatives r
  if ← keyword? "if" then
    let _ ← r.expression true
  symbol "=>"
  let result ← r.early
  let last ← peek .nothing
  if result.needsEnd && !last then symbol ","
  else
    let _ ← symbol? ","

def matchExpression (r : Rules) : Parser Unit := do
  keyword "match"
  condition r
  delimited .brace do
    let _ ← innerAttributes
    let _ ← untilEnd (matchArm r)

/-- Whether a closure that is general over lifetimes stands ahead, and no loop. -/
def generalClosure : Look :=
  .both (.keyword "for")
    (.both (.second (.symbol "<")) (.third (.either .lifetime (.symbol ">"))))

/-- A keyword and a block. -/
def keywordBlock (spelling : String) : Look :=
  .both (.keyword spelling) (.second (.group .brace))

/-- An expression that ends with a block, if one stands ahead. -/
def blockExpression? (r : Rules) : Parser (Option ExprShape) := do
  if ← peek (.keyword "if") then conditional r
  else if ← peek (.keyword "while") then whileLoop r
  else if ← peek (.butNot (.keyword "for") generalClosure) then forLoop r
  else if ← peek (.keyword "loop") then endlessLoop r
  else if ← peek (.keyword "match") then matchExpression r
  else if ← peek (keywordBlock "try") then
    keyword "try"
    r.block
  else if ← keyword? "unsafe" then
    let _ ← attributedBlock r
  else if ← peek (keywordBlock "const") then
    constBlock r
    return some .verbatim
  else if ← peek (.group .brace) then
    let _ ← attributedBlock r
  else return none
  return some .blockLike

/-- A loop or block after its label. -/
def labelled (r : Rules) : Parser Unit := do
  lifetime
  symbol ":"
  if ← peek (.keyword "while") then whileLoop r
  else if ← peek (.keyword "for") then forLoop r
  else if ← peek (.keyword "loop") then endlessLoop r
  else
    let _ ← attributedBlock r

/-- Where no value follows a jump. -/
def jumpEnd : Look :=
  .anyOf [.nothing, .symbol ",", .symbol ";"]

/-- Whether a closure stands ahead. -/
def closureAhead : Look :=
  .anyOf [
    .symbol "|",
    .anyKeyword ["move", "static"],
    generalClosure,
    .butNot (.keyword "const") (.second (.group .brace)),
    .both (.keyword "async") (.second (.either (.symbol "|") (.keyword "move")))]

/-- Whether a block that runs later stands ahead. -/
def asyncBlockAhead : Look :=
  .either (keywordBlock "async")
    (.both (.keyword "async") (.both (.second (.keyword "move")) (.third (.group .brace))))

/-- An expression without operators around it. -/
def atom (r : Rules) (structs : Bool) : Parser ExprShape := do
  if ← literalAhead then
    literal
    return .other
  else if ← peek asyncBlockAhead then
    keyword "async"
    let _ ← keyword? "move"
    r.block
    return .blockLike
  else if ← peek (keywordBlock "try") then
    keyword "try"
    r.block
    return .blockLike
  else if ← peek closureAhead then closure r structs
  else if ← peek (.either .pathStart (.symbol "<")) then pathExpression r structs
  else if ← peek (.group .paren) then
    tupleOrGroup r
    return .other
  else if ← keyword? "break" then
    lifetime?
    let block ← peek (.group .brace)
    unless (← peek jumpEnd) || (!structs && block) do
      let _ ← r.expression structs
    return .other
  else if ← keyword? "continue" then
    lifetime?
    return .other
  else if ← keyword? "return" then
    unless ← peek jumpEnd do
      let _ ← r.expression structs
    return .other
  else if ← peek (.group .bracket) then
    arrayOrRepeat r
    return .other
  else if ← peek (.keyword "let") then
    letCondition r
    return .other
  else if ← keyword? "yield" then
    unless ← peek jumpEnd do
      let _ ← r.expression true
    return .other
  else if ← peek (.symbol "..") then
    let _ ← rangeLimits
    unless ← peek (rangeEnd structs) do
      let _ ← r.expression structs
    return .range
  else if ← keyword? "_" then return .verbatim
  else if ← peek .lifetime then
    labelled r
    return .blockLike
  else
    match ← blockExpression? r with
    | some shape => return shape
    | none => refuse

/-- An argument in the angle brackets of a method. -/
def methodArgument (r : Rules) : Parser Unit := do
  if ← literalAhead then literal
  else if ← peek (.group .brace) then
    let _ ← attributedBlock r
  else
    let _ ← r.type true

/-- The arguments of a call, between parentheses. -/
def callArguments (r : Rules) : Parser Unit := do
  let _ ← delimited .paren (separatedByCommas (r.expression true))

/-- A field or a method, after the point. -/
def memberAccess (r : Rules) : Parser Unit := do
  if ← keyword? "await" then return
  unless ← member do return
  if ← symbol? "::" then
    symbol "<"
    let _ ← separatedUntil "," (.symbol ">") (methodArgument r)
    symbol ">"
    callArguments r
  else if ← peek (.group .paren) then callArguments r

/-- What follows a point. Two positions in a row may have been scanned as one number. -/
def access (r : Rules) : Parser Unit := do
  match ← ahead literal? with
  | some (.fraction spelling) =>
    let _ ← literal?
    let (indices, open?) := indexChain spelling
    unless indices.all isIndexText do refuse
    displace
    if open? then memberAccess r
  | _ => memberAccess r

/-- What is applied to an expression, as long as there is something. -/
def trailers (r : Rules) (shape : ExprShape) : Parser ExprShape :=
  rounds (fun (shape : ExprShape) => do
    if ← peek (.group .paren) then
      callArguments r
      return (.other, true)
    else if !shape.isRange && (← peek (.butNot (.symbol ".") (.symbol ".."))) then
      symbol "."
      access r
      return (.other, true)
    else if ← peek (.group .bracket) then
      let _ ← delimited .bracket (r.expression true)
      return (.other, true)
    else if ← symbol? "?" then return (.other, true)
    else return (shape, false)) shape

/-- An operand with the operators ahead of it. -/
def operand (r : Rules) (structs : Bool) : Parser ExprShape := do
  let before := (← get).displaced
  let _ ← outerAttributes
  if ← symbol? "&" then
    let raw ← peek (.both (.keyword "raw") (.second (.anyKeyword ["mut", "const"])))
    if raw then trees 1
    let mutable ← keyword? "mut"
    if raw && !mutable then keyword "const"
    let _ ← r.operand structs
    if raw then modify fun cursor => { cursor with displaced := before }
    return if raw then .verbatim else .other
  else if ← peek (.anyOf [.keyword "box", .symbol "*", .symbol "!", .symbol "-"]) then
    trees 1
    let _ ← r.operand structs
    return .other
  else
    let shape ← trailers r (← atom r structs)
    if let .verbatim := shape then modify fun cursor => { cursor with displaced := before }
    return shape

/-- An expression that starts a statement: one that ends with a block is complete, unless an access
follows it. -/
def early (r : Rules) : Parser ExprShape := do
  let _ ← outerAttributes
  match ← blockExpression? r with
  | none => r.expression true
  | some shape =>
    if ← peek (.either (.butNot (.symbol ".") (.symbol "..")) (.symbol "?")) then
      r.climb true (← trailers r shape) .none
    else return shape

end MacroExpansion.Grammar
