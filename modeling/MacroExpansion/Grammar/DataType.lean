import MacroExpansion.Grammar.Signature

/-!
# Structures, enumerations and unions
-/
namespace MacroExpansion.Grammar

/-- A field with a name, or an unnamed one that stands for the fields of an anonymous type. -/
def namedField (r : Rules) : Parser Unit := do
  let _ ← outerAttributes
  let _ ← visibility?
  let unnamed ← keyword? "_"
  unless unnamed do
    let _ ← name
  symbol ":"
  let anonymous ← peek (.either (.keyword "struct") (keywordBlock "union"))
  if unnamed && anonymous then
    trees 1
    r.namedFields
  else
    let _ ← r.type true

/-- Named fields in braces. -/
def namedFields (r : Rules) : Parser Unit := do
  let _ ← delimited .brace (separatedByCommas (namedField r))

/-- Fields without names in parentheses. -/
def positionalFields (r : Rules) : Parser Unit := do
  let _ ← delimited .paren <| separatedByCommas do
    let _ ← outerAttributes
    let _ ← visibility?
    r.type true

/-- What follows the parameters of a structure. A where clause stands ahead of braces, but after
parentheses. -/
def structBody (r : Rules) : Parser Unit := do
  let constrained ← whereClause? r
  if !constrained && (← peek (.group .paren)) then
    positionalFields r
    let _ ← whereClause? r
    symbol ";"
  else if ← peek (.group .brace) then namedFields r
  else symbol ";"

def variant (r : Rules) : Parser Unit := do
  let _ ← outerAttributes
  let _ ← visibility?
  let _ ← name
  if ← peek (.group .brace) then namedFields r
  else if ← peek (.group .paren) then positionalFields r
  if ← symbol? "=" then
    let _ ← r.expression true

/-- What follows the parameters of an enumeration. -/
def enumBody (r : Rules) : Parser Unit := do
  let _ ← whereClause? r
  let _ ← delimited .brace (separatedByCommas (variant r))

/-- What follows the parameters of a union. -/
def unionBody (r : Rules) : Parser Unit := do
  let _ ← whereClause? r
  namedFields r

end MacroExpansion.Grammar
