import MacroExpansion.Grammar.Path

/-!
# Types

Where several bounds may be joined by `+` depends on what is around the type. A function type that
takes `mut self` is kept as it is written.
-/
namespace MacroExpansion.Grammar

/-- Bounds that were read one after another. -/
structure BoundList where
  /-- Whether one of them is a trait. -/
  anyTrait : Bool
  /-- Whether there is just one, without a plus after it. -/
  single : Bool

/-- What may follow the plus after a bound. -/
def boundStart : Look :=
  .anyOf [.word, .symbol "::", .symbol "?", .lifetime, .group .paren, .symbol "~"]

/-- Bounds, at least one; more than one only if `plus` is allowed. -/
def boundList (r : Rules) (plus : Bool) : Parser BoundList := do
  let first ← r.bound
  let bounds : BoundList := ⟨first, true⟩
  unless plus do return bounds
  rounds (fun (bounds : BoundList) => do
    unless ← symbol? "+" do return (bounds, false)
    unless ← peek boundStart do return (⟨bounds.anyTrait, false⟩, false)
    let next ← r.bound
    return (⟨bounds.anyTrait || next, false⟩, true)) bounds

/-- Bounds that make up a type: one of them has to be a trait. -/
def objectBounds (r : Rules) (plus : Bool) : Parser BoundList := do
  let bounds ← boundList r plus
  unless bounds.anyTrait do refuse
  return bounds

/-- Bounds after the first one, each after a plus; says whether there are any. -/
def addedBounds (r : Rules) : Parser Bool :=
  rounds (fun (any : Bool) => do
    unless ← symbol? "+" do return (any, false)
    let _ ← r.bound
    return (true, true)) false

/-- What stands between the parentheses that a type starts with. -/
inductive ParenthesizedShape where
  | tuple
  /-- Bounds, the first of which is a lifetime. -/
  | bounds
  /-- A bound that does not ask for a known size. -/
  | relaxed
  | single (type : TypeShape)

def parenthesizedShape (r : Rules) : Parser ParenthesizedShape := do
  if ← peek .nothing then return .tuple
  if ← peek .lifetime then
    let _ ← objectBounds r true
    return .bounds
  if ← peek (.symbol "?") then
    traitBound r
    return .relaxed
  let first ← r.type true
  if ← peek (.symbol ",") then
    symbol ","
    let _ ← separatedByCommas (r.type true)
    return .tuple
  return .single first

/-- Whether a type in parentheses may be the first of several bounds. -/
def TypeShape.mayBeBound : TypeShape → Bool
  | .path false _ => true
  | .bounds true => true
  | _ => false

def parenthesizedType (r : Rules) (plus : Bool) : Parser TypeShape := do
  match ← delimited .paren (parenthesizedShape r) with
  | .tuple => return .other
  | .bounds => return .parenthesized
  | .relaxed => return .bounds !(← addedBounds r)
  | .single first =>
    if plus && first.mayBeBound then
      if ← addedBounds r then return .bounds false
    return .parenthesized

/-- A calling convention. -/
def callingConvention : Parser Unit := do
  keyword "extern"
  text?

def callingConvention? : Parser Unit := do
  if ← peek (.keyword "extern") then callingConvention

/-- How far the arguments of a function type have been read. -/
structure BareArguments where
  /-- Whether a `mut self` was among them. -/
  receiver : Bool
  /-- Whether the list of the others is empty or ends with a comma. -/
  ready : Bool

/-- One argument of a function type; says whether it is a `mut self`. -/
def bareArgument (r : Rules) : Parser Bool := do
  let _ ← outerAttributes
  if ← peek (.both (.either .name (.anyKeyword ["_", "self"])) (.second .colon)) then
    trees 2
  else if ← peek (.both (.keyword "mut")
      (.both (.second (.keyword "self")) (.third .colon))) then
    trees 3
    let _ ← r.type true
    return true
  if ← symbol? "..." then return false
  if ← peek (.both (.keyword "mut") (.second (.keyword "self"))) then
    trees 2
    return true
  let _ ← r.type true
  return false

/-- The arguments of a function type; says whether a `mut self` is among them. After one, no comma
is kept, and there is no room for a second other argument. -/
def bareArguments (r : Rules) : Parser Bool := do
  let read ← rounds (fun (read : BareArguments) => do
    if ← peek .nothing then return (read, false)
    let _ ← outerAttributes
    if read.ready then
      if ← symbol? "..." then return (read, false)
    let read ←
      if ← bareArgument r then pure { read with receiver := true }
      else if read.ready then pure { read with ready := false }
      else abort
    if ← peek .nothing then return (read, false)
    symbol ","
    return (if read.receiver then read else { read with ready := true }, true)) ⟨false, true⟩
  return read.receiver

/-- A function type. -/
def functionType (r : Rules) : Parser Unit := do
  let before := (← get).displaced
  let _ ← keyword? "unsafe"
  callingConvention?
  keyword "fn"
  let receiver ← delimited .paren (bareArguments r)
  let _ ← returnType? r false
  if receiver then modify fun cursor => { cursor with displaced := before }

/-- A type that starts with a path, or with `dyn`; `general` if lifetimes were bound before it. -/
def pathType (r : Rules) (plus general : Bool) : Parser TypeShape := do
  if ← keyword? "dyn" then
    let before := (← get).displaced
    let star ← symbol? "*"
    let _ ← objectBounds r plus
    if star then modify fun cursor => { cursor with displaced := before }
    return .other
  let start ← here
  let (qualified, path) ← typePath r
  if qualified then return .path true path
  if path.isPlain then
    if ← peek (.butNot (.symbol "!") (.symbol "!=")) then
      let _ ← callOf path.toMacroPath start
      return .other
  let joined ← if plus then peek (.symbol "+") else pure false
  if general || joined then
    let single ← if plus then (do
      let more ← rounds (fun (more : Bool) => do
        unless ← symbol? "+" do return (more, false)
        unless ← peek boundStart do return (true, false)
        let _ ← r.bound
        return (true, true)) false
      return !more) else pure true
    return .bounds single
  return .path false path

/-- The elements of an array or a slice. -/
def arrayType (r : Rules) : Parser Unit :=
  delimited .bracket do
    let _ ← r.type true
    if ← symbol? ";" then
      let _ ← r.expression true

/-- What may follow lifetimes that a type is made general over. -/
def generalTypeStart : Look :=
  .butNot (.either .name (.anyKeyword ["fn", "unsafe", "extern", "super", "self", "Self", "crate"]))
    (.keyword "dyn")

/-- A type. -/
def type (r : Rules) (plus : Bool) : Parser TypeShape := do
  let general ← binder?
  if general then
    unless ← peek generalTypeStart do refuse
  if ← peek (.group .paren) then parenthesizedType r plus
  else if ← peek (.anyKeyword ["fn", "unsafe", "extern"]) then
    functionType r
    return .other
  else if ← peek (.either .pathStart (.symbol "<")) then pathType r plus general
  else if ← peek (.group .bracket) then
    arrayType r
    return .other
  else if ← symbol? "*" then
    unless ← keyword? "const" do keyword "mut"
    let _ ← r.type false
    return .other
  else if ← symbol? "&" then
    lifetime?
    let _ ← keyword? "mut"
    let _ ← r.type false
    return .other
  else if ← peek (.butNot (.symbol "!") (.symbol "=")) then
    symbol "!"
    return .other
  else if ← keyword? "impl" then
    let _ ← objectBounds r plus
    return .other
  else if ← keyword? "_" then
    return .other
  else if ← peek .lifetime then
    let bounds ← objectBounds r true
    return .bounds bounds.single
  else refuse

end MacroExpansion.Grammar
