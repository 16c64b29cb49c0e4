import MacroExpansion.Grammar.Attribute
import MacroExpansion.Grammar.Literal
import MacroExpansion.Grammar.Rules

/-!
# Paths and bounds

A path in an expression takes arguments in angle brackets only after `::`, elsewhere directly. In
the normal order of arguments and parameters lifetimes come first: if one is the last and no comma
follows it, it takes a comma of no place to put it ahead of the others.
-/
namespace MacroExpansion.Grammar

/-- A list of arguments or parameters, each with whether it is a lifetime. -/
def noteOrder (list : Separated Bool) : Parser Unit := do
  if !list.trailing && list.items.getLast? == some true && list.items.contains false then displace

/-- A block with inner attributes, and its content. -/
def attributedBlock (r : Rules) : Parser (List String × List Statement) :=
  delimited .brace do
    let attributes ← innerAttributes
    return (attributes, ← r.statements)

/-- Whether arguments in parentheses stand ahead, with or without a `::`. -/
def parenthesesAhead : Look :=
  .either (.group .paren) (.both (.symbol "::") (.third (.group .paren)))

def returnType? (r : Rules) (plus : Bool) : Parser (Option TypeShape) := do
  if ← symbol? "->" then return some (← r.type plus)
  return none

/-- Arguments in parentheses, and the result type after them. -/
def parenthesizedArguments (r : Rules) : Parser (Option TypeShape) := do
  let _ ← symbol? "::"
  let _ ← delimited .paren (separatedByCommas (r.type true))
  returnType? r false

def lifetimeParameter : Parser Unit := do
  lifetime
  if ← symbol? ":" then separatedWhile "+" (.either (.symbol ",") (.symbol ">")) lifetime

/-- The lifetimes that a bound or a type is made general over, `for<…>`. -/
def binder : Parser Unit := do
  keyword "for"
  symbol "<"
  let _ ← separatedUntil "," (.symbol ">") do
    let _ ← outerAttributes
    lifetimeParameter
  symbol ">"

def binder? : Parser Bool := do
  if ← peek (.keyword "for") then
    binder
    return true
  return false

/-- Bounds up to `stop`, going on only after a plus. -/
def boundsUpTo (r : Rules) (stop : Look) : Parser Unit :=
  separatedWhile "+" stop (do let _ ← r.bound)

/-- The end of what stands between angle brackets, or of one entry there. -/
def entryEnd : Look :=
  .either (.symbol ",") (.symbol ">")

/-- Whether an argument may go on with `=` or `:`: its name may have arguments of its own. -/
def TypeShape.isNameWithArguments : TypeShape → Bool
  | .path false ⟨false, [⟨_, .angled _⟩]⟩ => true
  | _ => false

/-- An argument in angle brackets that starts with a type. -/
def typeArgument (r : Rules) : Parser Unit := do
  let before := (← get).displaced
  let type ← r.type true
  if type.isNameWithArguments then
    if ← symbol? "=" then
      let _ ← r.type true
      modify fun cursor => { cursor with displaced := before }
    else if ← symbol? ":" then
      boundsUpTo r entryEnd
      modify fun cursor => { cursor with displaced := before }

/-- An argument in angle brackets; says whether it is a lifetime. -/
def argument (r : Rules) : Parser Bool := do
  if ← peek (.butNot .lifetime (.second (.symbol "+"))) then
    lifetime
    return true
  if ← peek (.both .name (.second (.symbol "="))) then
    let _ ← name
    symbol "="
    if ← literalAhead then literal
    else if ← peek (.group .brace) then
      let _ ← attributedBlock r
    else
      let _ ← r.type true
  else if ← peek (.both .name (.second .colon)) then
    let _ ← name
    symbol ":"
    boundsUpTo r entryEnd
  else if ← literalAhead then literal
  else if ← peek (.group .brace) then
    let _ ← attributedBlock r
  else typeArgument r
  return false

/-- Arguments in angle brackets. -/
def angledArguments (r : Rules) : Parser ArgumentShape := do
  let _ ← symbol? "::"
  symbol "<"
  let arguments ← separatedUntil "," (.symbol ">") (argument r)
  symbol ">"
  noteOrder arguments
  return .angled arguments.items.isEmpty

/-- A segment of a path, in an expression or elsewhere. -/
def segment (r : Rules) (expression : Bool) : Parser PathSegment := do
  if ← peek (.anyKeyword ["super", "self", "crate", "try"]) then
    return ⟨← word, .absent⟩
  let spelling ← if ← peek (.keyword "Self") then word else name
  let direct ← peek (.butNot (.symbol "<") (.symbol "<="))
  let marked ← peek (.both (.symbol "::") (.third (.symbol "<")))
  if (!expression && direct) || marked then
    return ⟨spelling, ← angledArguments r⟩
  return ⟨spelling, .absent⟩

/-- More segments. A `::` ahead of parentheses is left. -/
def moreSegments (r : Rules) (expression : Bool) (path : PathShape) : Parser PathShape :=
  rounds (fun (path : PathShape) => do
    if ← peek (.butNot (.symbol "::") (.third (.group .paren))) then
      symbol "::"
      let s ← segment r expression
      return ({ path with segments := path.segments ++ [s] }, true)
    return (path, false)) path

def path (r : Rules) (expression : Bool) : Parser PathShape := do
  let rooted ← symbol? "::"
  let first ← segment r expression
  moreSegments r expression ⟨rooted, [first]⟩

def traitBound (r : Rules) : Parser Unit := do
  if ← peek (.both (.symbol "~") (.second (.keyword "const"))) then trees 2
  let _ ← symbol? "?"
  let _ ← binder?
  let path ← path r false
  if path.mayTakeArguments then
    if ← peek parenthesesAhead then
      let _ ← parenthesizedArguments r

/-- A bound; says whether it is a trait. -/
def bound (r : Rules) : Parser Bool := do
  if ← peek .lifetime then
    lifetime
    return false
  if ← peek (.group .paren) then delimited .paren (traitBound r)
  else traitBound r
  return true

/-- A path that may start with a type in angle brackets; says whether it does. -/
def qualifiedPath (r : Rules) (expression : Bool) : Parser (Bool × PathShape) := do
  if ← symbol? "<" then
    let _ ← r.type true
    let base ← if ← keyword? "as" then path r false else pure ⟨true, []⟩
    symbol ">"
    symbol "::"
    let rest ← rounds (fun (read : List PathSegment) => do
      let s ← segment r expression
      return (read ++ [s], ← symbol? "::")) []
    return (true, ⟨base.rooted, base.segments ++ rest⟩)
  return (false, ← path r expression)

/-- A path in a type. Arguments in parentheses may follow, and more segments after them unless a
result type stands between. -/
def typePath (r : Rules) : Parser (Bool × PathShape) := do
  let (qualified, path) ← qualifiedPath r false
  let path ← rounds (fun (path : PathShape) => do
    unless path.mayTakeArguments do return (path, false)
    unless ← peek parenthesesAhead do return (path, false)
    let result ← parenthesizedArguments r
    let path := path.parenthesized
    match result with
    | none => return (← moreSegments r false path, true)
    | some .parenthesized => return (← moreSegments r false path, true)
    | some _ => return (path, true)) path
  return (qualified, path)

end MacroExpansion.Grammar
