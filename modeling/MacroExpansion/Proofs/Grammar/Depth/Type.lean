import MacroExpansion.Proofs.Grammar.Depth

/-!
# How deep types nest

A type uses bounds before it has read a token, and a bound uses no rule before that.
-/
namespace MacroExpansion.Grammar

open TokenTree

namespace Agree

variable {w : Nat} {whole : Bool}

section

variable {r r' : Rules} [Rules.Tracked (fun _ => False) r r]

instance expression (structs : Bool) [Agree w whole (r.operand structs) (r'.operand structs)]
    [∀ left base, Agree w whole (r.climb structs left base) (r'.climb structs left base)] :
    Agree w whole (r.expression structs) (r'.expression structs) := by
  unfold Rules.expression
  infer_instance

instance block [Agree w false r.statements r'.statements] : Agree w whole r.block r'.block := by
  unfold Rules.block
  infer_instance

instance boundList (plus : Bool) [Agree w whole r.bound r'.bound] :
    Agree w whole (boundList r plus) (boundList r' plus) := by
  unfold Grammar.boundList
  infer_instance

instance objectBounds (plus : Bool) [Agree w whole r.bound r'.bound] :
    Agree w whole (objectBounds r plus) (objectBounds r' plus) := by
  unfold Grammar.objectBounds
  infer_instance

end

variable {r r' : Rules} [Rules.Tracked (fun _ => False) r r] [Rules.Agree w r r']

instance attributedBlock : Agree w true (attributedBlock r) (attributedBlock r') := by
  unfold Grammar.attributedBlock
  infer_instance

instance returnType? (plus : Bool) : Agree w true (returnType? r plus) (returnType? r' plus) := by
  unfold Grammar.returnType?
  infer_instance

instance parenthesizedArguments :
    Agree w true (parenthesizedArguments r) (parenthesizedArguments r') := by
  unfold Grammar.parenthesizedArguments
  infer_instance

instance boundsUpTo (stop : Look) [Steady false stop] :
    Agree w false (boundsUpTo r stop) (boundsUpTo r' stop) := by
  unfold Grammar.boundsUpTo
  infer_instance

instance typeArgument : Agree w false (typeArgument r) (typeArgument r') := by
  unfold Grammar.typeArgument
  infer_instance

instance argument : Agree w false (argument r) (argument r') := by
  unfold Grammar.argument
  refine ask inferInstance <| ask inferInstance ?_
  infer_instance

instance angledArguments : Agree w true (angledArguments r) (angledArguments r') := by
  unfold Grammar.angledArguments
  infer_instance

instance segment (expression : Bool) :
    Agree w true (segment r expression) (segment r' expression) := by
  unfold Grammar.segment
  refine ask inferInstance <| seq fun self => ?_
  infer_instance

instance moreSegments (expression : Bool) (path : PathShape) :
    Agree w true (moreSegments r expression path) (moreSegments r' expression path) := by
  unfold Grammar.moreSegments
  infer_instance

instance path (expression : Bool) : Agree w true (path r expression) (path r' expression) := by
  unfold Grammar.path
  infer_instance

instance traitBound : Agree w true (traitBound r) (traitBound r') := by
  unfold Grammar.traitBound
  infer_instance

instance bound : Agree w true (bound r) (bound r') := by
  unfold Grammar.bound
  infer_instance

instance qualifiedPath (expression : Bool) :
    Agree w true (qualifiedPath r expression) (qualifiedPath r' expression) := by
  unfold Grammar.qualifiedPath
  refine branch (seq fun _ => seq fun named => ?_) inferInstance
  -- whatever path the type is looked at as, what follows is the same
  extract_lets rest rest'
  have later (base : PathShape) : Agree w false (rest base) (rest' base) := by
    dsimp only [rest, rest']
    infer_instance
  clear_value rest rest'
  infer_instance

instance typePath : Agree w true (typePath r) (typePath r') := by
  unfold Grammar.typePath
  refine seq fun (qualified, path) => loop (fun path => ?_) (fun path => ?_) fun path => refl _
  · dsimp only
    split
    · refine .seq fun ahead => ?_
      split
      · refine .seq fun result => ?_
        split <;> infer_instance
      · infer_instance
    · infer_instance
  · dsimp only
    split
    · refine seq fun ahead => ?_
      split
      · refine seq fun result => ?_
        split <;> infer_instance
      · infer_instance
    · infer_instance

instance addedBounds : Agree w true (addedBounds r) (addedBounds r') := by
  unfold Grammar.addedBounds
  infer_instance

instance parenthesizedShape : Agree w false (parenthesizedShape r) (parenthesizedShape r') := by
  unfold Grammar.parenthesizedShape
  infer_instance

instance parenthesizedType (plus : Bool) :
    Agree w true (parenthesizedType r plus) (parenthesizedType r' plus) := by
  unfold Grammar.parenthesizedType
  refine after fun shape => ?_
  split <;> infer_instance

instance bareArgument : Agree w false (bareArgument r) (bareArgument r') := by
  unfold Grammar.bareArgument
  infer_instance

instance bareArguments : Agree w false (bareArguments r) (bareArguments r') := by
  unfold Grammar.bareArguments
  refine loop (fun read => inferInstance) (fun read => ask inferInstance <| seq fun _ => ?_)
    fun _ => refl _
  -- the last argument aside, every round goes on with an argument
  extract_lets _ rest rest'
  have argument (u : Unit) : Agree w false (rest u) (rest' u) := by
    dsimp only [rest, rest']
    infer_instance
  clear_value rest rest'
  infer_instance

instance functionType : Agree w true (functionType r) (functionType r') := by
  unfold Grammar.functionType
  infer_instance

instance pathType (plus general : Bool) :
    Agree w true (pathType r plus general) (pathType r' plus general) := by
  unfold Grammar.pathType
  refine branch inferInstance <| seq fun _ => seq fun (qualified, path) => ?_
  refine fork inferInstance ?_
  -- an invocation aside, every way goes on with the bounds behind the path
  extract_lets _ joined rest joined' rest'
  have bounds (seen : Bool) : Agree w true (joined seen) (joined' seen) := by
    refine fork (fork (seq fun single => ?_) inferInstance) inferInstance
    infer_instance
  have later (u : Unit) : Agree w true (rest u) (rest' u) := by
    dsimp only [rest, rest']
    clear_value joined joined'
    infer_instance
  clear_value rest rest'
  infer_instance

instance arrayType : Agree w true (arrayType r) (arrayType r') := by
  unfold Grammar.arrayType
  infer_instance

instance type (plus : Bool) [Agree w true r.bound r'.bound] :
    Agree w true (type r plus) (type r' plus) := by
  unfold Grammar.type
  refine seq fun general => ?_
  -- with a binder or without one, what follows is the same
  extract_lets _ rest _ rest'
  have later (u : Unit) : Agree w true (rest u) (rest' u) := by
    refine ask inferInstance <| ask inferInstance <| ask inferInstance <| ask inferInstance ?_
    infer_instance
  clear_value rest rest'
  infer_instance

instance constantArgument : Agree w true (constantArgument r) (constantArgument r') := by
  unfold Grammar.constantArgument
  infer_instance

instance parameterBounds : Agree w false (parameterBounds r) (parameterBounds r') := by
  unfold Grammar.parameterBounds
  infer_instance

instance typeParameter : Agree w true (typeParameter r) (typeParameter r') := by
  unfold Grammar.typeParameter
  infer_instance

instance constantParameter : Agree w true (constantParameter r) (constantParameter r') := by
  unfold Grammar.constantParameter
  infer_instance

instance parameter : Agree w true (parameter r) (parameter r') := by
  unfold Grammar.parameter
  infer_instance

instance generics? : Agree w true (generics? r) (generics? r') := by
  unfold Grammar.generics?
  infer_instance

instance predicate : Agree w false (predicate r) (predicate r') := by
  unfold Grammar.predicate
  infer_instance

instance whereClause : Agree w true (whereClause r) (whereClause r') := by
  unfold Grammar.whereClause
  infer_instance

instance whereClause? : Agree w true (whereClause? r) (whereClause? r') := by
  unfold Grammar.whereClause?
  infer_instance

end Agree

end MacroExpansion.Grammar
