import MacroExpansion.Grammar.DataType
import MacroExpansion.Grammar.Member

/-!
# Items

The first tokens of an item, its visibility passed over, show what it is. Some forms are read but
not understood: a function without a body, a static or a constant without a value, an alias with
bounds or without a definition, foreign blocks and modules that are unsafe, and implementations that
are conditional, have a visibility or are of no trait by name. They are kept raw.
-/
namespace MacroExpansion.Grammar

/-- What an item is, as its first tokens show. -/
inductive ItemForm where
  | function
  | externCrate
  | foreignBlock
  | use
  | static
  | const
  | unsafeForeignBlock
  | unsafeModule
  | module
  | alias
  | struct
  | enum
  | union
  | trait
  | implementation
  | rules
  | call
  | visibleRules
  deriving DecidableEq, Repr

/-- What an item that starts with `extern`, and is no function, is. -/
def externForm : Parser ItemForm := do
  if ← peek (.keyword "crate") then return .externCrate
  if ← peek (.group .brace) then return .foreignBlock
  if let some .text ← literal? then
    if ← peek (.group .brace) then return .foreignBlock
  refuse

/-- What an item that starts with `unsafe`, and is no function, is. -/
def unsafeForm : Parser ItemForm := do
  if ← peek (.either (.keyword "trait") (.both (.keyword "auto") (.second (.keyword "trait")))) then
    return .trait
  if ← peek (.keyword "impl") then return .implementation
  if ← peek (.keyword "extern") then return .unsafeForeignBlock
  if ← peek (.keyword "mod") then return .unsafeModule
  refuse

/-- What stands ahead. -/
def itemForm : Parser ItemForm :=
  ahead do
    let visible ← visibility?
    if ← signatureAhead then return .function
    if ← keyword? "extern" then return ← externForm
    if ← peek (.keyword "use") then return .use
    if ← peek (.keyword "static") then return .static
    if ← keyword? "const" then
      let _ ← nameOrUnderscore
      return .const
    if ← keyword? "unsafe" then return ← unsafeForm
    if ← peek (.keyword "mod") then return .module
    if ← peek (.keyword "type") then return .alias
    if ← peek (.keyword "struct") then return .struct
    if ← peek (.keyword "enum") then return .enum
    if ← peek (.both (.keyword "union") (.second .name)) then return .union
    if ← peek (.keyword "trait") then return .trait
    if ← peek (.both (.keyword "auto") (.second (.keyword "trait"))) then return .trait
    if ← peek (.either (.keyword "impl")
        (.butNot (.keyword "default") (.second (.symbol "!")))) then
      return .implementation
    if ← peek (.keyword "macro") then return .rules
    if !visible && (← peek callStart) then return .call
    if ← peek (.keyword MacroPath.definer) then return .visibleRules
    refuse

/-- An item but for its head. -/
structure ItemBody where
  /-- The attributes that stand in its braces. -/
  attributes : List String
  build : ItemHead → Item

namespace ItemBody

def raw : ItemBody :=
  ⟨[], fun head => .raw { head with displaced := false }⟩

def leaf (attributes : List String) (kind : ElementKind) (spelling : Option String) : ItemBody :=
  ⟨attributes, fun head => .leaf head kind (spelling.bind Item.declaredName)⟩

end ItemBody

def functionItem (r : Rules) : Parser ItemBody := do
  let _ ← visibility?
  let spelling ← signature r
  if ← symbol? ";" then return .raw
  let (attributes, body) ← attributedBlock r
  return ⟨attributes, fun head => .function head spelling body⟩

def externCrateItem : Parser ItemBody := do
  let _ ← visibility?
  keyword "extern"
  keyword "crate"
  let spelling ← if ← peek (.keyword "self") then word else name
  let spelling ← if ← keyword? "as" then nameOrUnderscore else pure spelling
  symbol ";"
  return .leaf [] .externCrate (some spelling)

def foreignBlockItem (r : Rules) : Parser ItemBody := do
  callingConvention
  let attributes ← delimited .brace do
    let attributes ← innerAttributes
    let _ ← untilEnd (foreignMember r)
    return attributes
  return .leaf attributes .foreignBlock none

def useTree (r : Rules) : Parser Unit := do
  if ← peek (.either .name (.anyKeyword ["self", "super", "crate"])) then
    let _ ← word
    if ← symbol? "::" then r.useTree
    else if ← keyword? "as" then
      let _ ← nameOrUnderscore
  else if ← symbol? "*" then return
  else
    let _ ← delimited .brace (separatedByCommas r.useTree)

def useItem (r : Rules) : Parser ItemBody := do
  let _ ← visibility?
  keyword "use"
  let _ ← symbol? "::"
  r.useTree
  symbol ";"
  return .leaf [] .use none

def staticItem (r : Rules) : Parser ItemBody := do
  let _ ← visibility?
  keyword "static"
  let _ ← keyword? "mut"
  let spelling ← name
  if ← symbol? "=" then
    let _ ← r.expression true
    symbol ";"
    return .raw
  if ← typedValue? r then return .leaf [] .static (some spelling)
  return .raw

def constItem (r : Rules) : Parser ItemBody := do
  let _ ← visibility?
  keyword "const"
  let spelling ← nameOrUnderscore
  if ← typedValue? r then return .leaf [] .const (some spelling)
  return .raw

def moduleItem (r : Rules) : Parser ItemBody := do
  let _ ← visibility?
  keyword "mod"
  let spelling ← name
  if ← symbol? ";" then return ⟨[], fun head => .moduleElsewhere head spelling⟩
  let (attributes, items) ← delimited .brace do
    let attributes ← innerAttributes
    return (attributes, ← untilEnd r.item)
  return ⟨attributes, fun head => .module head spelling items⟩

def unsafeItem (item : Parser ItemBody) : Parser ItemBody := do
  let _ ← visibility?
  keyword "unsafe"
  let _ ← item
  return .raw

def typeAliasItem (r : Rules) : Parser ItemBody := do
  let _ ← visibility?
  let shape ← aliasItem r .beforeDefinition
  if shape.bounded || !shape.defined then return .raw
  return .leaf [] .typeAlias (some shape.spelling)

/-- A structure, an enumeration or a union. -/
def dataItem (r : Rules) (word : String) (kind : ElementKind) (body : Rules → Parser Unit) :
    Parser ItemBody := do
  let _ ← visibility?
  keyword word
  let spelling ← name
  generics? r
  body r
  return .leaf [] kind (some spelling)

/-- The supertraits, the where clause and the braces of a trait. -/
def traitBody (r : Rules) : Parser (List String) := do
  if ← symbol? ":" then
    let _ ← separatedUntil "+" (.either (.keyword "where") (.group .brace)) r.bound
  let _ ← whereClause? r
  delimited .brace do
    let attributes ← innerAttributes
    let _ ← untilEnd (traitMember r)
    return attributes

/-- The bounds and the where clause of a trait alias. -/
def traitAliasBody (r : Rules) : Parser Unit := do
  let _ ← separatedUntil "+" (.either (.keyword "where") (.symbol ";")) r.bound
  let _ ← whereClause? r
  symbol ";"

def traitItem (r : Rules) : Parser ItemBody := do
  let _ ← visibility?
  let marked ← keyword? "unsafe"
  let auto ← keyword? "auto"
  keyword "trait"
  let spelling ← name
  generics? r
  if !marked && !auto then
    if ← symbol? "=" then
      traitAliasBody r
      return .leaf [] .traitAlias (some spelling)
  let attributes ← traitBody r
  return .leaf attributes .trait (some spelling)

/-- Whether generic parameters, and no type in angle brackets, stand ahead. -/
def parametersAhead : Look :=
  let next : Look := .anyOf [.symbol ":", .symbol ",", .symbol ">", .symbol "="]
  .both (.symbol "<") (.either
    (.second (.anyOf [.symbol ">", .symbol "#", .keyword "const"]))
    (.both (.second (.either .name .lifetime)) (.third next)))

/-- The types that an implementation is of; says whether it is understood. -/
def implementedTypes (r : Rules) : Parser Bool := do
  let before := (← get).displaced
  let negative ← peek (.butNot (.symbol "!") (.second (.group .brace)))
  if negative then symbol "!"
  let first ← r.type true
  if ← keyword? "for" then
    let _ ← r.type true
    match first with
    | .path false _ => return true
    | _ => return false
  if negative then modify fun cursor => { cursor with displaced := before }
  return true

def implementationItem (r : Rules) : Parser ItemBody := do
  let visible ← visibility?
  let _ ← keyword? "default"
  let _ ← keyword? "unsafe"
  keyword "impl"
  if ← peek parametersAhead then generics? r
  let conditional ← peek
    (.either (.keyword "const") (.both (.symbol "?") (.second (.keyword "const"))))
  if conditional then
    let _ ← symbol? "?"
    keyword "const"
  let understood ← implementedTypes r
  let _ ← whereClause? r
  let (attributes, members) ← delimited .brace do
    let attributes ← innerAttributes
    return (attributes, ← untilEnd (implementationMember r))
  if visible || conditional || !understood then return .raw
  return ⟨attributes, fun head => .implementation head (members.filterMap id)⟩

/-- A rule set that is defined by a keyword of its own. -/
def rulesItem : Parser ItemBody := do
  let _ ← visibility?
  keyword "macro"
  let spelling ← name
  if ← peek (.group .paren) then trees 1
  unless ← peek (.group .brace) do refuse
  trees 1
  return .leaf [] .macroRules (some spelling)

/-- An invocation in place of an item, or the definition of a rule set. -/
def callItem : Parser NamedCall := do
  let named ← namedCall
  if named.call.needsSemicolon then symbol ";"
  return named

/-- An item after its attributes. -/
def itemBody (r : Rules) : Parser ItemBody := do
  match ← itemForm with
  | .function => functionItem r
  | .externCrate => externCrateItem
  | .foreignBlock => foreignBlockItem r
  | .use => useItem r
  | .static => staticItem r
  | .const => constItem r
  | .unsafeForeignBlock => unsafeItem (foreignBlockItem r)
  | .unsafeModule => unsafeItem (moduleItem r)
  | .module => moduleItem r
  | .alias => typeAliasItem r
  | .struct => dataItem r "struct" .struct structBody
  | .enum => dataItem r "enum" .enum enumBody
  | .union => dataItem r "union" .union unionBody
  | .trait => traitItem r
  | .implementation => implementationItem r
  | .rules => rulesItem
  | .call =>
    let named ← callItem
    return ⟨[], fun head => itemOfCall head named.call named.name⟩
  | .visibleRules =>
    let _ ← visibility?
    let _ ← callItem
    return .raw

/-- An item. -/
def item (r : Rules) : Parser Item := do
  modify fun cursor => { cursor with displaced := false }
  let ((attributes, body), extent) ← placed do
    let attributes ← outerAttributes
    return (attributes, ← itemBody r)
  return body.build ⟨attributes ++ body.attributes, extent, (← get).displaced⟩

end MacroExpansion.Grammar
