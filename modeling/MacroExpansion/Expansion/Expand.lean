import MacroExpansion.Expansion.LazyStatic
import MacroExpansion.Template

/-!
# Expansion

An invocation is expanded in these steps. A lazily evaluated static is told by the invocation's name
alone. For any other name the definition is looked up, parsed and held against the supported shape.
The arguments are parsed as items, the text of the template's repetition is pasted once per item,
and the result is parsed again: its items are the expansion, placed in the scope of the invocation.
Where a step fails, the invocation stays unexpanded.
-/
namespace MacroExpansion

/-- Which way an expansion was made. -/
inductive ExpansionOrigin where
  | builtin
  | definition
  deriving DecidableEq, Repr

def ExpansionOrigin.text : ExpansionOrigin → String
  | builtin => "Builtin"
  | definition => "Definition"

structure Expansion where
  origin : ExpansionOrigin
  results : List BoundElement
  deriving DecidableEq, Repr

/-- Places elements in the scope of a context. -/
def bindAll (elements : List Element) (context : InvocationContext) :
    Attempt ExpandError (List BoundElement) :=
  Attempt.ofOption .contextBindFailed (elements.mapM fun e => e.bind? context)

/-- The elements of generated text; their locations point back at the invocation. -/
def resynthesize (text : List Char) (invocation : Span) : Eventful ExpandError (List Element) := do
  let u ← (ScratchUnit.parse ScratchUnit.expansionFile text).mapError ExpandError.resynthesisFailed
  match u.elements (some invocation) with
  | [] => Eventful.fail .noResolvableElements
  | elements => return elements

/-- The text of a template's repetition, cut out of its definition. -/
def extractTemplate (source : List Char) (shape : SupportedShape) : Option (List Char) :=
  Text.between? source shape.template.start.offset shape.template.stop.offset

/-- The shape of a definition. -/
def shapeOf (definition : MacroDefinition) : Attempt ExpandError SupportedShape := do
  let rules ← (RuleSet.parse definition.source.toList).mapError ExpandError.malformedDefinition
  match SupportedShape.ofRules rules with
  | .ok shape => return shape
  | .error reason => Attempt.fail (.definitionRejected definition.name reason)

/-- The arguments of an invocation. -/
def argumentsOf (invocation : MacroInvocation) :
    Eventful ExpandError (List ArgumentFragment) :=
  Eventful.mapError ExpandError.argumentParseFailed do
    parseArguments (← Eventful.ofAttempt (argumentText invocation.source.toList))

/-- Expands an invocation by a definition. -/
def expandWith (definition : MacroDefinition) (invocation : MacroInvocation) :
    Eventful ExpandError (List BoundElement) := do
  let shape ← Eventful.ofAttempt (shapeOf definition)
  let fragments ← argumentsOf invocation
  let template ← Eventful.ofAttempt
    (Attempt.ofOption .templateExtractFailed (extractTemplate definition.source.toList shape))
  if fragments.isEmpty then Eventful.fail .instantiationEmpty
  let text := Template.instantiate template shape.binding (fragments.map ArgumentFragment.text)
  let elements ← resynthesize text invocation.span
  Eventful.ofAttempt (bindAll elements invocation.context)

/-- Expands an invocation that needs no definition; none if it needs one. -/
def expandBuiltin? (invocation : MacroInvocation) :
    Option (Eventful ExpandError (List BoundElement)) :=
  if invocation.name = LazyStatic.invocationName then
    some do
      Eventful.report (.expandingBuiltin invocation.name)
      let element ← LazyStatic.element invocation
      Eventful.ofAttempt (bindAll [element] invocation.context)
  else none

/-- Expands an invocation, with its definition looked up if it needs one. -/
def expandMacro (lookup : Ident → Option MacroDefinition) (invocation : MacroInvocation) :
    Eventful ExpandError Expansion := do
  match expandBuiltin? invocation with
  | some results => return ⟨.builtin, ← results⟩
  | none =>
    Eventful.report (.lookup invocation.name)
    match lookup invocation.name with
    | none => Eventful.fail (.unresolved invocation.name)
    | some definition =>
      Eventful.report (.expanding invocation definition)
      return ⟨.definition, ← expandWith definition invocation⟩

/-- Expands an invocation, or reports why it stays as it is. -/
def expandOrNone (lookup : Ident → Option MacroDefinition) (invocation : MacroInvocation) :
    Eventful Empty (Option (List BoundElement)) :=
  ExceptT.mk do
    match ← (expandMacro lookup invocation).run with
    | .ok expansion => return .ok (some expansion.results)
    | .error .aborted => return .error .aborted
    | .error (.error cause) =>
      modify (· ++ [.notExpanding invocation cause])
      return .ok none

end MacroExpansion
