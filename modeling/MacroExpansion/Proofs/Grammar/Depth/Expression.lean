import MacroExpansion.Proofs.Grammar.Depth.Type

/-!
# How deep patterns and expressions nest

An expression uses an operand before it has read a token, and an expression that starts a statement
an expression. All other rules are used after a token only.
-/
namespace MacroExpansion.Grammar

open TokenTree

instance : Spends rangeLimits where
  fewer read :=
    (Tracks.takes_rangeLimits : Takes (fun _ => False) true Eq _ _).fewer rfl read rfl

namespace Agree

variable {w : Nat} {r r' : Rules} [tracked : Rules.Tracked (fun _ => False) r r]
  [Rules.Agree w r r']

instance moreAlternatives : Agree w true (moreAlternatives r) (moreAlternatives r') := by
  unfold Grammar.moreAlternatives
  infer_instance

instance alternatives : Agree w false (alternatives r) (alternatives r') := by
  unfold Grammar.alternatives
  infer_instance

instance openAlternatives : Agree w false (openAlternatives r) (openAlternatives r') := by
  unfold Grammar.openAlternatives
  infer_instance

instance constBlock : Agree w true (constBlock r) (constBlock r') := by
  unfold Grammar.constBlock
  infer_instance

instance patternValue? : Agree w true (patternValue? r) (patternValue? r') := by
  unfold Grammar.patternValue?
  infer_instance

instance fieldPattern : Agree w true (fieldPattern r) (fieldPattern r') := by
  unfold Grammar.fieldPattern
  infer_instance

instance structPattern : Agree w true (structPattern r) (structPattern r') := by
  unfold Grammar.structPattern
  infer_instance

instance tuplePattern : Agree w true (tuplePattern r) (tuplePattern r') := by
  unfold Grammar.tuplePattern
  infer_instance

instance pathPattern : Agree w true (pathPattern r) (pathPattern r') := by
  unfold Grammar.pathPattern
  refine of_got fun before => seq fun _ => seq fun (qualified, path) => seq fun call => ?_
  infer_instance

instance valuePattern : Agree w true (valuePattern r) (valuePattern r') := by
  unfold Grammar.valuePattern
  infer_instance

instance bindingPattern : Agree w true (bindingPattern r) (bindingPattern r') := by
  unfold Grammar.bindingPattern
  infer_instance

instance openRangePattern : Agree w true (openRangePattern r) (openRangePattern r') := by
  unfold Grammar.openRangePattern
  infer_instance

instance pattern : Agree w true (pattern r) (pattern r') := by
  unfold Grammar.pattern
  infer_instance

instance movesClimb (structs : Bool) (left : ExprShape) (base : Precedence) :
    Moves (r.climb structs left base) :=
  (tracked.climb (.same left)).weaken fun _ _ _ => trivial

instance rightOperand (structs : Bool) (binds : Precedence → Bool) :
    Agree w false (rightOperand r structs binds) (rightOperand r' structs binds) := by
  refine seq fun left => loop (fun left => ?_) (fun left => ?_) fun _ => refl _
  · infer_instance
  · exact of_got fun c => inferInstance

instance castType : Agree w false (castType r) (castType r') := by
  unfold Grammar.castType
  infer_instance

instance climbStep (structs : Bool) (base : Precedence) :
    Agree w true (climbStep r structs base) (climbStep r' structs base) := by
  unfold Grammar.climbStep
  refine of_got fun c => ?_
  dsimp only
  split
  next text precedence found =>
    have := Tracks.inked_of_operatorAhead? (Option.filter_eq_some_iff.mp found).1
    infer_instance
  next => infer_instance

instance climb (structs : Bool) (left : ExprShape) (base : Precedence) :
    Agree w true (climb r structs left base) (climb r' structs left base) := by
  have moves (left : ExprShape) : Moves
      (do
        match ← Grammar.climbStep r structs base with
        | some joined => return (joined, true)
        | none => return (left, false)) :=
    (Tracks.climbRound structs base (.same left)).tracks.weaken fun _ _ _ => trivial
  have step : Tracks (fun _ => False) false Eq (Grammar.climbStep r structs base)
      (Grammar.climbStep r structs base) := (Tracks.climbStep structs base).tracks
  unfold Grammar.climb
  infer_instance

instance condition : Agree w false (condition r) (condition r') := by
  unfold Grammar.condition
  infer_instance

instance fieldValue : Agree w false (fieldValue r) (fieldValue r') := by
  unfold Grammar.fieldValue
  infer_instance

instance structFields : Agree w true (structFields r) (structFields r') := by
  unfold Grammar.structFields
  refine inside (repeated fun _ => ?_)
  infer_instance

instance pathExpression (structs : Bool) :
    Agree w true (pathExpression r structs) (pathExpression r' structs) := by
  unfold Grammar.pathExpression
  infer_instance

instance closureArgument : Agree w false (closureArgument r) (closureArgument r') := by
  unfold Grammar.closureArgument
  infer_instance

instance closure (structs : Bool) : Agree w true (closure r structs) (closure r' structs) := by
  unfold Grammar.closure
  refine seq fun general => seq fun constant => ?_
  infer_instance

instance tupleOrGroup : Agree w true (tupleOrGroup r) (tupleOrGroup r') := by
  unfold Grammar.tupleOrGroup
  infer_instance

instance arrayOrRepeat : Agree w true (arrayOrRepeat r) (arrayOrRepeat r') := by
  unfold Grammar.arrayOrRepeat
  infer_instance

instance letCondition : Agree w true (letCondition r) (letCondition r') := by
  unfold Grammar.letCondition
  infer_instance

instance conditional : Agree w true (conditional r) (conditional r') := by
  unfold Grammar.conditional
  refine repeated fun _ => ?_
  infer_instance

instance whileLoop : Agree w true (whileLoop r) (whileLoop r') := by
  unfold Grammar.whileLoop
  infer_instance

instance forLoop : Agree w true (forLoop r) (forLoop r') := by
  unfold Grammar.forLoop
  infer_instance

instance endlessLoop : Agree w true (endlessLoop r) (endlessLoop r') := by
  unfold Grammar.endlessLoop
  infer_instance

instance matchArm : Agree w false (matchArm r) (matchArm r') := by
  unfold Grammar.matchArm
  infer_instance

instance matchExpression : Agree w true (matchExpression r) (matchExpression r') := by
  unfold Grammar.matchExpression
  infer_instance

instance blockExpression? : Agree w true (blockExpression? r) (blockExpression? r') := by
  unfold Grammar.blockExpression?
  infer_instance

instance labelled : Agree w true (labelled r) (labelled r') := by
  unfold Grammar.labelled
  infer_instance

instance atom (structs : Bool) : Agree w true (atom r structs) (atom r' structs) := by
  have last : Agree w true
      (do match ← Grammar.blockExpression? r with
        | some shape => return shape
        | none => refuse)
      (do match ← Grammar.blockExpression? r' with
        | some shape => return shape
        | none => refuse) := by
    refine seq fun shape => ?_
    split <;> infer_instance
  unfold Grammar.atom
  refine ask inferInstance <| ask inferInstance <| ask inferInstance ?_
  refine ask inferInstance <| ask inferInstance <| ask inferInstance ?_
  refine branch inferInstance <| branch inferInstance <| branch inferInstance ?_
  infer_instance

instance methodArgument : Agree w false (methodArgument r) (methodArgument r') := by
  unfold Grammar.methodArgument
  infer_instance

instance callArguments : Agree w true (callArguments r) (callArguments r') := by
  unfold Grammar.callArguments
  infer_instance

instance memberAccess : Agree w true (memberAccess r) (memberAccess r') := by
  unfold Grammar.memberAccess
  infer_instance

instance access : Agree w true (access r) (access r') := by
  unfold Grammar.access
  refine seq fun number => ?_
  split
  · refine seq fun _ => ?_
    dsimp only
    infer_instance
  · infer_instance

instance movesTrailers (shape : ExprShape) : Moves (Grammar.trailers r shape) :=
  (Tracks.trailers (.same shape)).weaken fun _ _ _ => trivial

instance trailers (shape : ExprShape) : Agree w true (trailers r shape) (trailers r' shape) := by
  unfold Grammar.trailers
  refine repeated fun shape => ?_
  infer_instance

instance operand (structs : Bool) : Agree w true (operand r structs) (operand r' structs) := by
  have bare (displaced : Bool) : Agree w true
      (do
        let shape ← Grammar.trailers r (← Grammar.atom r structs)
        if let .verbatim := shape then modify fun cursor => { cursor with displaced }
        return shape)
      (do
        let shape ← Grammar.trailers r' (← Grammar.atom r' structs)
        if let .verbatim := shape then modify fun cursor => { cursor with displaced }
        return shape) := by
    refine seq fun atom => seq fun shape => ?_
    split <;> infer_instance
  unfold Grammar.operand
  refine of_got fun before => seq fun _ => branch ?_ inferInstance
  refine seq fun raw => ?_
  infer_instance

instance early [Agree w true (r.operand true) (r'.operand true)]
    [∀ left base, Agree w true (r.climb true left base) (r'.climb true left base)] :
    Agree w true (early r) (early r') := by
  unfold Grammar.early
  refine seq fun _ => seq fun shape => ?_
  split
  · infer_instance
  · refine seq fun more => ?_
    split <;> infer_instance

end Agree

end MacroExpansion.Grammar
