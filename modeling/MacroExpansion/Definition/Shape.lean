import MacroExpansion.Definition.RuleSet

/-!
# The supported shape

Only definitions of one form are expanded: one case, whose pattern has one repetition of one
metavariable of the kind `item`, and whose template has one repetition, which is not empty and
has no other in it. Neither repetition may stand in a group, since what is around the template's is
lost. The first reason that applies is given for all other definitions.
-/
namespace MacroExpansion

/-- Why a definition is not supported. -/
inductive Unsupported where
  | caseCount (count : Nat)
  | patternGroupCount (count : Nat)
  | looseFragment (name : Ident)
  | nestedGroup
  | groupedRepetition
  | bindingCount (count : Nat)
  | fragmentKind (kind : FragmentKind)
  | templateGroupCount (count : Nat)
  | emptyTemplate
  deriving DecidableEq, Repr

namespace Unsupported

def message : Unsupported → String
  | caseCount count => "expected exactly one case, found " ++ toString count
  | patternGroupCount count =>
    "expected exactly one repetition in the pattern, found " ++ toString count
  | looseFragment name => "`$" ++ name.name ++ "` isn't inside the repetition"
  | nestedGroup => "nested repetitions aren't supported"
  | groupedRepetition => "repetitions inside a delimited group aren't supported"
  | bindingCount count =>
    "expected exactly one binding in the repetition, found " ++ toString count
  | fragmentKind kind => "expected an `item` binding, found `" ++ kind.text ++ "`"
  | templateGroupCount count =>
    "expected exactly one repetition in the template, found " ++ toString count
  | emptyTemplate => "the template repetition is empty"

end Unsupported

namespace Piece

mutual

/-- Whether a piece is a repetition or a group with one in it. -/
def hasRepetition : Piece μ → Bool
  | repetition _ _ => true
  | group content => anyRepetition content
  | _ => false

/-- Whether there is a repetition, in groups of any depth. -/
def anyRepetition : List (Piece μ) → Bool
  | [] => false
  | p :: ps => p.hasRepetition || anyRepetition ps

end

mutual

/-- The metavariables of a piece, if it is no repetition. -/
def ownMetavariables : Piece μ → List μ
  | metavariable m => [m]
  | group content => metavariables content
  | _ => []

/-- The metavariables outside of repetitions, in groups of any depth. -/
def metavariables : List (Piece μ) → List μ
  | [] => []
  | p :: ps => p.ownMetavariables ++ metavariables ps

end

/-- A repetition without its operator. -/
structure Repetition (μ : Type) where
  content : List (Piece μ)
  parentheses : Extent

/-- The repetitions of a sequence, none of which may stand in a group. -/
def repetitions : List (Piece μ) → Except Unsupported (List (Repetition μ))
  | [] => .ok []
  | .repetition content parentheses :: ps => do
    return ⟨content, parentheses⟩ :: (← repetitions ps)
  | .group content :: ps =>
    if anyRepetition content then .error .groupedRepetition else repetitions ps
  | _ :: ps => repetitions ps

end Piece

/-- What an expansion needs to know about a supported definition. -/
structure SupportedShape where
  /-- The metavariable that stands for an item. -/
  binding : Ident
  /-- The parentheses of the template's repetition. -/
  template : Extent
  deriving DecidableEq, Repr

namespace SupportedShape

/-- The metavariable of a pattern. -/
def bindingOf (pattern : Pattern) : Except Unsupported Ident := do
  match ← Piece.repetitions pattern with
  | [r] =>
    if let loose :: _ := Piece.metavariables pattern then throw (.looseFragment loose.name)
    if Piece.anyRepetition r.content then throw .nestedGroup
    match Piece.metavariables r.content with
    | [fragment] =>
      if fragment.kind = .item then return fragment.name
      throw (.fragmentKind fragment.kind)
    | fragments => throw (.bindingCount fragments.length)
  | found => throw (.patternGroupCount found.length)

/-- The parentheses of a template. -/
def parenthesesOf (template : Template) : Except Unsupported Extent := do
  match ← Piece.repetitions template with
  | [r] =>
    if r.content.isEmpty then throw .emptyTemplate
    if Piece.anyRepetition r.content then throw .nestedGroup
    return r.parentheses
  | found => throw (.templateGroupCount found.length)

/-- The shape of a definition, or the first reason against it. -/
def ofRules (rules : RuleSet) : Except Unsupported SupportedShape := do
  match rules.cases with
  | [only] =>
    let binding ← bindingOf only.pattern
    let template ← parenthesesOf only.template
    return ⟨binding, template⟩
  | cases => throw (.caseCount cases.length)

end SupportedShape

end MacroExpansion
