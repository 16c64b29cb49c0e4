import MacroExpansion.Grammar.Expression

/-!
# Statements

Of the statements of a body only its items and some invocations are kept: those that are a whole
statement, the initial value of a variable or the result of the body. An invocation with braces at
the start of a statement is an item.
-/
namespace MacroExpansion.Grammar

/-- What a statement is, as its first tokens show. -/
inductive StatementForm where
  | call
  | declaration
  | item
  | expression

/-- Whether the braces or the name of an invocation in place of an item stand ahead. -/
def itemCallAhead : Look :=
  .both (.symbol "!") (.either (.second .name)
    (.butNot (.second (.group .brace)) (.third (.either (.symbol ".") (.symbol "?")))))

/-- What a closure goes on with after other keywords. -/
def closureRest : Look :=
  .either (.keyword "move") (.symbol "|")

/-- Whether a static stands ahead, and no closure. -/
def staticAhead : Look :=
  .both (.keyword "static") (.either (.second (.keyword "mut"))
    (.butNot (.second .name) (.both (.second (.keyword "async")) (.third closureRest))))

/-- The keywords of a function's signature that may follow another of them. -/
def signatureRest : Look :=
  .anyKeyword ["unsafe", "extern", "fn"]

/-- Whether a constant or a function stands ahead, and no block or closure. -/
def constAhead : Look :=
  .butNot (.keyword "const") (.either
    (.second (.anyOf [.group .brace, .keyword "static", closureRest]))
    (.butNot (.second (.keyword "async")) (.third signatureRest)))

/-- Whether an item stands ahead, and no expression that starts with the same keyword. -/
def itemAhead : Look :=
  .anyOf [
    .anyKeyword ["pub", "extern", "use", "fn", "mod", "type", "struct", "enum", "trait", "impl",
      "macro"],
    .butNot (.keyword "crate") (.second (.symbol "::")),
    staticAhead,
    constAhead,
    .butNot (.keyword "unsafe") (.second (.group .brace)),
    .both (.keyword "async") (.second signatureRest),
    .both (.keyword "union") (.second .name),
    .both (.keyword "auto") (.second (.keyword "trait")),
    .both (.keyword "default") (.second (.anyKeyword ["unsafe", "impl"]))]

/-- What kind of statement stands ahead, its attributes passed over. -/
def statementForm : Parser StatementForm :=
  ahead do
    let _ ← outerAttributes
    let call ← ahead do
      match ← optional? plainPath with
      | some _ => peek itemCallAhead
      | none => return false
    if call then return .call
    if ← peek (.keyword "let") then return .declaration
    if ← peek itemAhead then return .item
    return .expression

/-- The item that an invocation makes, given the name between its path and its group. -/
def itemOfCall (head : ItemHead) (call : MacroCall) (spelling : Option String) : Item :=
  if call.path.isWord MacroPath.definer then
    match spelling with
    | some spelling => .ruleSet head spelling
    | none => .leaf head .macroCall none
  else .invocation head call

/-- An invocation that may give a name. -/
structure NamedCall where
  name : Option String
  call : MacroCall

/-- An invocation with or without a name between its path and its group. -/
def namedCall : Parser NamedCall := do
  let start ← here
  let path ← plainPath
  symbol "!"
  let spelling ← if ← peek .name then some <$> name else pure none
  let (delimiter, body, group) ← anyGroup
  return ⟨spelling, path, delimiter, body, group, ⟨start, group.stop⟩⟩

/-- What a statement amounts to. -/
structure StatementShape where
  kept : Option Statement
  /-- Whether it is an expression that only the end of the body may follow. -/
  final : Bool

/-- An invocation in place of an item; a semicolon after it is part of it. -/
def callStatement : Parser StatementShape := do
  let ((attributes, named), extent) ← placed do
    let attributes ← outerAttributes
    let named ← namedCall
    let _ ← symbol? ";"
    return (attributes, named)
  let item := itemOfCall ⟨attributes, extent, false⟩ named.call named.name
  return ⟨some (.item item), false⟩

/-- The block that runs if a value has not the form of the declared pattern; says whether there is
one. -/
def otherwise? (r : Rules) : Parser Bool := do
  if ← keyword? "else" then
    r.block
    return true
  return false

/-- The declaration of variables, with the invocation that is their initial value. -/
def declaration (r : Rules) : Parser (Option MacroCall) := do
  let _ ← outerAttributes
  keyword "let"
  openAlternatives r
  if ← symbol? ":" then
    let _ ← r.type true
  if ← symbol? "=" then
    let value ← r.expression true
    let conditional ← otherwise? r
    symbol ";"
    match value, conditional with
    | .call call, false => return some call
    | _, _ => return none
  symbol ";"
  return none

def declarationStatement (r : Rules) : Parser StatementShape := do
  let (call, extent) ← placed (declaration r)
  return ⟨call.map fun call => .invocation extent .initializer call, false⟩

def expressionStatement (r : Rules) : Parser StatementShape := do
  let ((shape, ended), extent) ← placed do
    let _ ← outerAttributes
    let shape ← r.early
    return (shape, ← symbol? ";")
  let kept := match shape with
    | .call call => some (.invocation extent (if ended then .statement else .tail) call)
    | _ => none
  return ⟨kept, !ended && shape.needsEnd⟩

def statement (r : Rules) : Parser StatementShape := do
  match ← statementForm with
  | .call => callStatement
  | .declaration => declarationStatement r
  | .item => return ⟨some (.item (← r.item)), false⟩
  | .expression => expressionStatement r

/-- The content of a body. -/
def statements (r : Rules) : Parser (List Statement) := do
  let read ← rounds (fun (read : List Statement) => do
    if ← symbol? ";" then return (read, true)
    if ← peek .nothing then return (read, false)
    let shape ← statement r
    let read := shape.kept.toList ++ read
    if ← peek .nothing then return (read, false)
    if shape.final then refuse
    return (read, true)) []
  return read.reverse

end MacroExpansion.Grammar
