import Mathlib.Data.List.Find
import MacroExpansion.Proofs.Grammar.Tracks.Type

/-!
# Patterns and expressions

What an expression is told to be may hold an invocation, which has other places where the tokens
have. All other values that the rules give are the same.
-/
namespace MacroExpansion.Grammar

open TokenTree

/-! ## Questions that are asked -/

instance {n : Nat} : Decided (n + 1) bar := by
  unfold bar
  infer_instance

instance : Placeless bar := by
  unfold bar
  infer_instance

instance {n : Nat} : Decided (n + 1) boundOmitted := by
  unfold boundOmitted
  infer_instance

instance : Placeless boundOmitted := by
  unfold boundOmitted
  infer_instance

instance {n : Nat} : Decided (n + 1) nameOfPath := by
  unfold nameOfPath
  infer_instance

instance : Placeless nameOfPath := by
  unfold nameOfPath
  infer_instance

instance {n : Nat} : Decided (n + 1) pathPatternStart := by
  unfold pathPatternStart
  infer_instance

instance : Placeless pathPatternStart := by
  unfold pathPatternStart
  infer_instance

theorem inked_of_operator : ∀ operator ∈ binaryOperators, Inked operator.1 := by
  have written : ∀ operator ∈ binaryOperators,
      0 < operator.1.length ∧ ';' ∉ operator.1.toList.dropLast := by
    decide
  exact fun operator member => ⟨(written operator member).1, (written operator member).2⟩

/-- Which operator stands ahead shows in what is told of each. -/
theorem operatorAhead?_congr {ts us : List TokenTree}
    (same : ∀ text, [Inked text] → Look.symbol text ts = Look.symbol text us) :
    operatorAhead? ts = operatorAhead? us :=
  List.find?_congr fun operator member =>
    have := inked_of_operator operator member
    same operator.1

instance : Placeless operatorAhead? where
  same ts := operatorAhead?_congr fun text _ => placeless (Look.symbol text) ts

instance {n : Nat} : Decided (n + 1) operatorAhead? where
  same _ more ended reached :=
    operatorAhead?_congr fun text _ => decided (Look.symbol text) ended reached more

instance : Placeless precedenceAhead where
  same ts := by
    unfold precedenceAhead
    rw [placeless operatorAhead?, placeless (Look.butNot (.symbol "=") (.symbol "=>")),
      placeless (Look.symbol ".."), placeless (Look.keyword "as"), placeless Look.colon]

instance {n : Nat} : Decided (n + 1) precedenceAhead where
  same ts more ended reached := by
    unfold precedenceAhead
    rw [decided operatorAhead? ended reached,
      decided (Look.butNot (.symbol "=") (.symbol "=>")) ended reached,
      decided (Look.symbol "..") ended reached, decided (Look.keyword "as") ended reached,
      decided Look.colon ended reached]

instance {n : Nat} : Decided (n + 1) afterCast := by
  unfold afterCast
  infer_instance

instance : Placeless afterCast := by
  unfold afterCast
  infer_instance

instance (structs : Bool) : AboutFirst fun ts => !structs && Look.group .brace ts where
  nothing := Bool.and_false _
  first t ts := by rw [first_alone (Look.group .brace)]
  same t := by
    have same : Look.group .brace [t.seen] = Look.group .brace [t] := AboutFirst.same t
    rw [same]

instance {n : Nat} (structs : Bool) : Decided (n + 1) (rangeEnd structs) := by
  unfold rangeEnd
  infer_instance

instance (structs : Bool) : Placeless (rangeEnd structs) := by
  unfold rangeEnd
  infer_instance

instance {n : Nat} : Decided (n + 1) assignment := by
  unfold assignment
  infer_instance

instance : Placeless assignment := by
  unfold assignment
  infer_instance

instance (spelling : String) {n : Nat} : Decided (n + 1) (keywordBlock spelling) := by
  unfold keywordBlock
  infer_instance

instance (spelling : String) : Placeless (keywordBlock spelling) := by
  unfold keywordBlock
  infer_instance

instance {n : Nat} : Decided (n + 1) generalClosure := by
  unfold generalClosure
  infer_instance

instance : Placeless generalClosure := by
  unfold generalClosure
  infer_instance

instance {n : Nat} : Decided (n + 1) jumpEnd := by
  unfold jumpEnd
  infer_instance

instance : Placeless jumpEnd := by
  unfold jumpEnd
  infer_instance

instance {n : Nat} : Decided (n + 1) closureAhead := by
  unfold closureAhead
  infer_instance

instance : Placeless closureAhead := by
  unfold closureAhead
  infer_instance

instance {n : Nat} : Decided (n + 1) asyncBlockAhead := by
  unfold asyncBlockAhead
  infer_instance

instance : Placeless asyncBlockAhead := by
  unfold asyncBlockAhead
  infer_instance

namespace Similar

variable {left right : ExprShape}

theorem needsEnd (h : Similar left right) : right.needsEnd = left.needsEnd := by
  cases h <;> rfl

theorem isRange (h : Similar left right) : right.isRange = left.isRange := by
  cases h <;> rfl

end Similar

namespace Tracks

variable {fit : List TokenTree → Prop} {free : Bool}

/-! ## Patterns -/

section

variable [Sound fit] {r r' : Rules} [Rules.Tracked fit r r']

instance takes_rangeLimits : Takes fit free Eq rangeLimits rangeLimits := by
  unfold rangeLimits
  infer_instance

instance rangeLimits : Tracks fit free Eq rangeLimits rangeLimits :=
  takes_rangeLimits.tracks

instance moreAlternatives : Tracks fit free Eq (moreAlternatives r) (moreAlternatives r') := by
  unfold Grammar.moreAlternatives
  infer_instance

instance alternatives : Tracks fit free Eq (alternatives r) (alternatives r') := by
  unfold Grammar.alternatives
  infer_instance

instance openAlternatives : Tracks fit free Eq (openAlternatives r) (openAlternatives r') := by
  unfold Grammar.openAlternatives
  infer_instance

instance constBlock : Tracks fit free Eq (constBlock r) (constBlock r') := by
  unfold Grammar.constBlock
  infer_instance

instance patternValue? : Tracks fit free Eq (patternValue? r) (patternValue? r') := by
  unfold Grammar.patternValue?
  infer_instance

instance member : Tracks fit free Eq member member := by
  unfold Grammar.member
  refine seq fun named => ?_
  split
  · infer_instance
  · refine seq fun shape => ?_
    split
    · infer_instance
    · infer_instance

instance fieldPattern : Tracks fit free Eq (fieldPattern r) (fieldPattern r') := by
  unfold Grammar.fieldPattern
  infer_instance

instance structPattern : Tracks fit free Eq (structPattern r) (structPattern r') := by
  unfold Grammar.structPattern
  refine inside (repeated fun _ => ?_)
  infer_instance

instance tuplePattern : Tracks fit free Eq (tuplePattern r) (tuplePattern r') := by
  unfold Grammar.tuplePattern
  infer_instance

instance pathPattern : Tracks fit free Eq (pathPattern r) (pathPattern r') := by
  unfold Grammar.pathPattern
  refine of_noted fun displaced _ _ _ _ => here.bind fun _ _ _ => seq fun (qualified, path) => ?_
  dsimp only
  infer_instance

instance valuePattern : Tracks fit free Eq (valuePattern r) (valuePattern r') := by
  unfold Grammar.valuePattern
  infer_instance

instance bindingPattern : Tracks fit free Eq (bindingPattern r) (bindingPattern r') := by
  unfold Grammar.bindingPattern
  infer_instance

instance openRangePattern : Tracks fit free Eq (openRangePattern r) (openRangePattern r') := by
  unfold Grammar.openRangePattern
  infer_instance

instance nameOfRange : Tracks fit free Eq nameOfRange nameOfRange := by
  have dots : Timid Grammar.rangeLimits := by
    have inclusive : Timid (Grammar.symbol? "..=") := Timid.symbol? (by decide)
    have old : Timid (Grammar.symbol? "...") := Timid.symbol? (by decide)
    have exclusive : Timid (Grammar.symbol "..") := Timid.symbol (by decide)
    unfold Grammar.rangeLimits
    infer_instance
  unfold Grammar.nameOfRange
  infer_instance

instance pattern : Tracks fit free Eq (pattern r) (pattern r') := by
  unfold Grammar.pattern
  refine seq fun range => ask inferInstance <| ask inferInstance <| ask inferInstance ?_
  infer_instance

end

/-! ## Operators -/

/-- Nothing is given to a right operand where no operator stands ahead. -/
class Selective (binds : Precedence → Bool) : Prop where
  stops : binds .none = false

instance (precedence : Precedence) : Selective fun next =>
    precedence.rank < next.rank || (next == precedence && precedence == .assign) where
  stops := by cases precedence <;> rfl

instance : Selective fun next => Precedence.assign.rank ≤ next.rank := ⟨rfl⟩

instance : Selective fun next => Precedence.range.rank < next.rank := ⟨rfl⟩

theorem inked_of_operatorAhead? {ts : List TokenTree} {operator : String × Precedence}
    (ahead : operatorAhead? ts = some operator) : Inked operator.1 :=
  inked_of_operator _ (List.mem_of_find?_eq_some ahead)

theorem of_branch {α : Type} {condition : Bool} {look : Look} {p q : Parser α}
    {c d : Cursor} {a : α}
    (read : (Grammar.peek look >>= fun seen => if (condition && seen) = true then p else q) c =
      .ok (a, d)) :
    p c = .ok (a, d) ∨ (condition && look c.rest) = false ∧ q c = .ok (a, d) := by
  obtain ⟨seen, _, looked, read⟩ := of_bind read
  obtain ⟨rfl, rfl⟩ := of_peek looked
  split at read
  next => exact .inl read
  next no => exact .inr ⟨Bool.not_eq_true _ ▸ no, read⟩

/-- Where an operator stands ahead that binds so tightly, there is a step. -/
theorem isSome_of_climbStep {r : Rules} {structs : Bool} {c d : Cursor} {joined : Option ExprShape}
    (stands : precedenceAhead c.rest ≠ .none)
    (read : Grammar.climbStep r structs (precedenceAhead c.rest) c = .ok (joined, d)) :
    joined.isSome := by
  have gives {α : Type} {p : Parser α} {shape : ExprShape} {c : Cursor}
      (read : (p >>= fun _ => pure (some shape)) c = .ok (joined, d)) : joined.isSome := by
    obtain ⟨_, _, _, given⟩ := of_bind read
    cases given
    rfl
  obtain ⟨_, _, got, read⟩ := of_bind read
  cases got
  cases operator : operatorAhead? c.rest with
  | some found =>
    obtain ⟨text, precedence⟩ := found
    have binds : precedenceAhead c.rest = precedence := by rw [precedenceAhead, operator]
    simp only [operator, binds, Option.filter_some, Nat.le_refl, decide_true, ↓reduceIte] at read
    obtain ⟨_, _, _, read⟩ := of_bind read
    exact gives read
  | none =>
    simp only [operator, Option.filter_none] at read
    rcases of_branch read with read | ⟨noAssign, read⟩
    · obtain ⟨_, _, _, read⟩ := of_bind read
      exact gives read
    rcases of_branch read with read | ⟨noRange, read⟩
    · obtain ⟨_, _, _, read⟩ := of_bind read
      obtain ⟨_, _, _, read⟩ := of_bind read
      split at read
      · cases read
        rfl
      · exact gives read
    rcases of_branch read with read | ⟨noCast, read⟩
    · obtain ⟨_, _, _, read⟩ := of_bind read
      exact gives read
    rcases of_branch read with read | ⟨noType, read⟩
    · obtain ⟨_, _, _, read⟩ := of_bind read
      exact gives read
    -- nothing that binds stands ahead
    have notEqual : Look.symbol "==" c.rest = false := by
      have unlisted := List.find?_eq_none.mp operator ("==", .compare) (by decide)
      simpa using unlisted
    have same : assignment c.rest = Look.butNot (.symbol "=") (.symbol "=>") c.rest := by
      simp [assignment, Look.butNot, Look.either, notEqual]
    rw [same] at noAssign
    have ahead : precedenceAhead c.rest =
        if Look.butNot (.symbol "=") (.symbol "=>") c.rest then .assign
        else if Look.symbol ".." c.rest then .range
        else if Look.keyword "as" c.rest || Look.colon c.rest then .cast
        else .none := by
      rw [precedenceAhead, operator]
    rw [ahead] at stands noAssign noRange noCast noType
    cases equal : Look.butNot (.symbol "=") (.symbol "=>") c.rest with
    | true => simp [equal] at noAssign
    | false =>
      cases range : Look.symbol ".." c.rest with
      | true => simp [equal, range] at noRange
      | false =>
        cases cast : (Look.keyword "as" c.rest || Look.colon c.rest) with
        | true =>
          simp [equal, range, cast] at noCast noType
          simp [noCast, noType] at cast
        | false => simp [equal, range, cast] at stands

section

instance pureShape (shape : ExprShape) : Tracks fit free Similar (pure shape) (pure shape) :=
  pure_of (.same shape)

variable [Sound fit] {r r' : Rules} [tracked : Rules.Tracked fit r r']

instance rightOperand (structs : Bool) (binds : Precedence → Bool) [selective : Selective binds] :
    Tracks fit free Eq (rightOperand r structs binds) (rightOperand r' structs binds) := by
  have round {left left' : ExprShape} (similar : Similar left left') :
      Tracks fit free (OnRound Similar)
        (do
          let next := precedenceAhead (← get).rest
          if binds next then return (← r.climb structs left next, true)
          return (left, false))
        (do
          let next := precedenceAhead (← get).rest
          if binds next then return (← r'.climb structs left' next, true)
          return (left', false)) := by
    refine of_asked precedenceAhead fun c d same => ?_
    dsimp only
    rw [same]
    split
    · exact (tracked.climb similar).bind fun _ _ similar => pure_of ⟨similar, rfl⟩
    · exact pure_of ⟨similar, rfl⟩
  refine (tracked.operand free structs).bind fun left left' similar => ?_
  refine (rounds (fun left left' similar => ⟨round similar, fun {c _ _} _ read more => ?_⟩)
    similar).bind fun _ _ _ => pureEq ()
  obtain ⟨_, _, got, read⟩ := of_bind read
  cases got
  dsimp only at read
  split at read
  next binding =>
    obtain ⟨_, _, climbed, given⟩ := of_bind read
    cases given
    exact tracked.climbs (fun unbound => by simp [unbound, selective.stops] at binding) climbed
  next =>
    cases read
    cases more

instance castType : Tracks fit free Eq (castType r) (castType r') := by
  unfold Grammar.castType
  infer_instance

/-- An operator is read with its right operand. -/
instance climbStep (structs : Bool) (base : Precedence) :
    Onward fit free Option.isSome Eq (climbStep r structs base) (climbStep r' structs base) := by
  unfold Grammar.climbStep
  refine .of_asked operatorAhead? fun c d same => ?_
  dsimp only
  rw [same]
  split
  next text precedence found =>
    have := inked_of_operatorAhead? (Option.filter_eq_some_iff.mp found).1
    infer_instance
  next => infer_instance

theorem climbRound (structs : Bool) (base : Precedence) {left left' : ExprShape}
    (similar : Similar left left') :
    Repeats fit free (OnRound Similar)
      (do
        match ← Grammar.climbStep r structs base with
        | some joined => return (joined, true)
        | none => return (left, false))
      (do
        match ← Grammar.climbStep r' structs base with
        | some joined => return (joined, true)
        | none => return (left', false)) where
  tracks := by
    refine (climbStep structs base).tracks.bind fun joined _ same => ?_
    subst same
    cases joined with
    | some joined => exact pure_of ⟨.same joined, rfl⟩
    | none => exact pure_of ⟨similar, rfl⟩
  fewer isFree read more := by
    have step : Onward fit free Option.isSome Eq (Grammar.climbStep r structs base)
      (Grammar.climbStep r' structs base) := climbStep structs base
    obtain ⟨joined, _, one, given⟩ := of_bind read
    cases joined with
    | some joined =>
      cases given
      exact step.fewer isFree one rfl
    | none =>
      cases given
      cases more

theorem climb (structs : Bool) {left left' : ExprShape} (base : Precedence)
    (similar : Similar left left') :
    Tracks fit free Similar (climb r structs left base) (climb r' structs left' base) :=
  rounds (fun _ _ similar => climbRound structs base similar) similar

omit tracked in
/-- An operator that stands ahead is read by what it binds. -/
theorem fewer_of_climb (tracked : Rules.Tracked fit r r') {structs : Bool}
    {left joined : ExprShape} {c d : Cursor}
    (stands : precedenceAhead c.rest ≠ .none)
    (read : Grammar.climb r structs left (precedenceAhead c.rest) c = .ok (joined, d)) :
    d.rest.length < c.rest.length := by
  have round (left left' : ExprShape) (similar : Similar left left') :=
    @climbRound fit true _ r r' tracked structs (precedenceAhead c.rest) left left' similar
  obtain ⟨_, _, got, read⟩ := of_bind read
  cases got
  obtain ⟨⟨next, again⟩, mid, one, later⟩ := of_bind read
  obtain ⟨joined, _, step, given⟩ := of_bind one
  cases joined with
  | none => cases isSome_of_climbStep stands step
  | some joined =>
    cases given
    have fewer := (round left left (.same left)).fewer rfl one rfl
    have loop := roundsWithin (fun a b similar => (round a b similar).tracks)
      (Nat.le_refl c.rest.length) (.same next)
    obtain ⟨_, took⟩ := loop.reads later
    exact Nat.lt_of_le_of_lt took.length_le fewer

end

/-! ## Operands -/

section

variable [Sound fit] {r r' : Rules} [tracked : Rules.Tracked fit r r']

instance block : Tracks fit free Eq r.block r'.block := by
  unfold Rules.block
  infer_instance

instance condition : Tracks fit free Eq (condition r) (condition r') := by
  unfold Grammar.condition
  infer_instance

instance fieldValue : Tracks fit free Eq (fieldValue r) (fieldValue r') := by
  unfold Grammar.fieldValue
  infer_instance

instance structFields : Tracks fit free Eq (structFields r) (structFields r') := by
  unfold Grammar.structFields
  refine inside (repeated fun _ => ?_)
  infer_instance

instance pathExpression (structs : Bool) :
    Tracks fit free Similar (pathExpression r structs) (pathExpression r' structs) := by
  have call (path : MacroPath) (start start' : Position) :
      Tracks fit free Similar (do return .call (← Grammar.callOf path start))
        (do return .call (← Grammar.callOf path start')) :=
    (callOf path start start').bind fun call call' _ => pure_of (.call call call')
  unfold Grammar.pathExpression
  refine here.bind fun _ _ _ => seq fun (qualified, path) => ?_
  dsimp only
  infer_instance

instance closureArgument : Tracks fit free Eq (closureArgument r) (closureArgument r') := by
  unfold Grammar.closureArgument
  infer_instance

instance closure (structs : Bool) :
    Tracks fit free Similar (closure r structs) (closure r' structs) := by
  unfold Grammar.closure
  refine seq fun general => seq fun constant => ?_
  infer_instance

instance tupleOrGroup : Tracks fit free Eq (tupleOrGroup r) (tupleOrGroup r') := by
  unfold Grammar.tupleOrGroup
  infer_instance

instance arrayOrRepeat : Tracks fit free Eq (arrayOrRepeat r) (arrayOrRepeat r') := by
  unfold Grammar.arrayOrRepeat
  infer_instance

instance letCondition : Tracks fit free Eq (letCondition r) (letCondition r') := by
  unfold Grammar.letCondition
  refine seq fun _ => seq fun _ => seq fun _ => ?_
  refine (tracked.operand free false).bind fun left left' similar => ?_
  exact (tracked.climb similar).bind fun _ _ _ => pureEq ()

instance conditional : Tracks fit free Eq (conditional r) (conditional r') := by
  unfold Grammar.conditional
  infer_instance

instance whileLoop : Tracks fit free Eq (whileLoop r) (whileLoop r') := by
  unfold Grammar.whileLoop
  infer_instance

instance forLoop : Tracks fit free Eq (forLoop r) (forLoop r') := by
  unfold Grammar.forLoop
  infer_instance

instance endlessLoop : Tracks fit free Eq (endlessLoop r) (endlessLoop r') := by
  unfold Grammar.endlessLoop
  infer_instance

/-- An arm stands in the braces of its `match`. -/
instance matchArm : Tracks fit false Eq (matchArm r) (matchArm r') := by
  have result : Tracks fit false Eq (do
      let result ← r.early
      let last ← Grammar.peek .nothing
      if result.needsEnd && !last then Grammar.symbol ","
      else
        let _ ← Grammar.symbol? ",") (do
      let result ← r'.early
      let last ← Grammar.peek .nothing
      if result.needsEnd && !last then Grammar.symbol ","
      else
        let _ ← Grammar.symbol? ",") := by
    refine tracked.early.bind fun result result' similar => ?_
    rw [similar.needsEnd]
    infer_instance
  unfold Grammar.matchArm
  infer_instance

instance matchExpression : Tracks fit free Eq (matchExpression r) (matchExpression r') := by
  unfold Grammar.matchExpression
  infer_instance

instance blockExpression? : Tracks fit free Eq (blockExpression? r) (blockExpression? r') := by
  unfold Grammar.blockExpression?
  refine ask inferInstance <| ask inferInstance ?_
  infer_instance

instance labelled : Tracks fit free Eq (labelled r) (labelled r') := by
  unfold Grammar.labelled
  infer_instance

instance atom (structs : Bool) :
    Tracks fit free Similar (atom r structs) (atom r' structs) := by
  have last : Tracks fit free Similar
      (do match ← Grammar.blockExpression? r with
        | some shape => return shape
        | none => Grammar.refuse)
      (do match ← Grammar.blockExpression? r' with
        | some shape => return shape
        | none => Grammar.refuse) := by
    refine seq fun shape => ?_
    cases shape with
    | some shape => exact pureShape shape
    | none => exact refuse _
  unfold Grammar.atom
  refine ask inferInstance <| ask inferInstance <| ask inferInstance ?_
  refine ask inferInstance <| ask inferInstance <| ask inferInstance ?_
  refine ask inferInstance <| ask inferInstance <| ask inferInstance ?_
  infer_instance

instance methodArgument : Tracks fit free Eq (methodArgument r) (methodArgument r') := by
  unfold Grammar.methodArgument
  infer_instance

instance takes_callArguments : Takes fit free Eq (callArguments r) (callArguments r') := by
  unfold callArguments
  infer_instance

instance callArguments : Tracks fit free Eq (callArguments r) (callArguments r') :=
  takes_callArguments.tracks

instance memberAccess : Tracks fit free Eq (memberAccess r) (memberAccess r') := by
  unfold Grammar.memberAccess
  infer_instance

instance access : Tracks fit free Eq (access r) (access r') := by
  unfold Grammar.access
  refine seq fun number => ?_
  split
  · refine seq fun _ => ?_
    dsimp only
    infer_instance
  · infer_instance

theorem trailers {left left' : ExprShape} (similar : Similar left left') :
    Tracks fit free Similar (trailers r left) (trailers r' left') := by
  have next {shape shape' : ExprShape} (h : Similar shape shape') (again : Bool) :
      Tracks fit free (OnRound Similar) (pure (shape, again)) (pure (shape', again)) :=
    pure_of ⟨h, rfl⟩
  have joined : Tracks fit free (OnRound Similar) (pure (.other, true)) (pure (.other, true)) :=
    next (.same _) true
  refine rounds (fun shape shape' similar => ?_) similar
  have stop : Repeats fit free (OnRound Similar) (pure (shape, false)) (pure (shape', false)) :=
    .pure_of rfl ⟨similar, rfl⟩
  rw [similar.isRange]
  infer_instance

instance operand (structs : Bool) :
    Tracks fit free Similar (operand r structs) (operand r' structs) := by
  have bare (displaced : Bool) : Tracks fit free Similar
      (do
        let shape ← Grammar.trailers r (← Grammar.atom r structs)
        if let .verbatim := shape then modify fun cursor => { cursor with displaced }
        return shape)
      (do
        let shape ← Grammar.trailers r' (← Grammar.atom r' structs)
        if let .verbatim := shape then modify fun cursor => { cursor with displaced }
        return shape) := by
    refine (atom structs).bind fun _ _ similar =>
      (trailers similar).bind fun shape shape' similar => ?_
    cases similar with
    | call call call' => exact pure_of (.call call call')
    | same => cases shape <;> infer_instance
  unfold Grammar.operand
  refine of_noted fun displaced _ _ _ _ => seq fun _ => seq fun reference => ?_
  split
  · refine seq fun raw => ?_
    dsimp only
    split <;> infer_instance
  · infer_instance

instance early : Tracks fit false Similar (early r) (early r') := by
  unfold Grammar.early
  refine seq fun _ => seq fun shape => ?_
  cases shape with
  | none => infer_instance
  | some shape =>
    refine seq fun more => ?_
    split
    · exact (trailers (.same shape)).bind fun _ _ similar => tracked.climb similar
    · infer_instance

end

end Tracks

end MacroExpansion.Grammar
