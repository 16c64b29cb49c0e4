import MacroExpansion.Proofs.Grammar.Tracks.Expression

/-!
# Statements, signatures and members

All of this stands in parentheses or braces, or ahead of them, so that what follows an item is out
of its sight. Statements are read to the end of their block; of what they are told to be only the
end counts.
-/
namespace MacroExpansion.Grammar

/-! ## Questions that are asked -/

instance : Placeless itemCallAhead := by
  unfold itemCallAhead
  infer_instance

instance : Placeless closureRest := by
  unfold closureRest
  infer_instance

instance : Placeless staticAhead := by
  unfold staticAhead
  infer_instance

instance : Placeless signatureRest := by
  unfold signatureRest
  infer_instance

instance : Placeless constAhead := by
  unfold constAhead
  infer_instance

instance : Placeless itemAhead := by
  unfold itemAhead
  infer_instance

instance : Placeless callStart := by
  unfold callStart
  infer_instance

instance {n : Nat} : Decided (n + 1) callStart := by
  unfold callStart
  infer_instance

instance : Timid text? := by
  have given (shape : Option LiteralShape) : Timid (do
      if let some .text := shape then
        let _ ← literal?) := by
    split <;> infer_instance
  exact Timid.bind

instance : Timid callingConvention? := by
  unfold callingConvention? callingConvention
  infer_instance

namespace Tracks

/-- Statements that end alike. -/
def AlikeEnds (x y : StatementShape) : Prop :=
  y.final = x.final

instance : Std.Refl AlikeEnds where
  refl _ := rfl

/-- Invocations with the same name. -/
structure AlikeNamed (x y : NamedCall) : Prop where
  name : y.name = x.name
  call : AlikeCalls x.call y.call

instance : Std.Refl AlikeNamed where
  refl x := ⟨rfl, Std.Refl.refl x.call⟩

theorem AlikeCalls.needsSemicolon {x y : MacroCall} (h : AlikeCalls x y) :
    y.needsSemicolon = x.needsSemicolon := by
  unfold MacroCall.needsSemicolon
  rw [h.delimiter]

variable {fit : List TokenTree → Prop} {free : Bool}

/-! ## Statements -/

section

variable [Hereditary fit]

instance map {α β : Type} (f : α → β) {p q : Parser α} [Tracks fit free Eq p q] :
    Tracks fit free Eq (f <$> p) (f <$> q) := by
  rw [← bind_pure_comp, ← bind_pure_comp]
  infer_instance

theorem macroCall : Tracks fit free AlikeCalls macroCall macroCall :=
  here.bind fun _ _ _ => seq fun _ => callOf _ _ _

instance macroCallItem : Tracks fit free Any macroCallItem macroCallItem := by
  refine macroCall.bind fun call call' alike => ?_
  rw [alike.needsSemicolon]
  infer_instance

/-- The group of a call whose name and path are read. -/
instance groupOf (path : MacroPath) (spelling : Option String) (start start' : Position) :
    Tracks fit free AlikeNamed
      (do
        let (delimiter, body, group) ← Grammar.anyGroup
        return ⟨spelling, path, delimiter, body, group, ⟨start, group.stop⟩⟩)
      (do
        let (delimiter, body, group) ← Grammar.anyGroup
        return ⟨spelling, path, delimiter, body, group, ⟨start', group.stop⟩⟩) :=
  anyGroup.bind fun _ _ alike => pure_of ⟨rfl, rfl, alike.1⟩

theorem namedCall : Tracks fit free AlikeNamed namedCall namedCall := by
  unfold Grammar.namedCall
  refine here.bind fun _ _ _ => seq fun path => seq fun _ => seq fun seen => ?_
  infer_instance

instance statementForm : Tracks fit false Eq statementForm statementForm := by
  have call : Tracks fit false Eq
      (do
        match ← Grammar.optional? Grammar.plainPath with
        | some _ => Grammar.peek itemCallAhead
        | none => return false)
      (do
        match ← Grammar.optional? Grammar.plainPath with
        | some _ => Grammar.peek itemCallAhead
        | none => return false) := by
    refine seq fun path => ?_
    cases path <;> infer_instance
  unfold Grammar.statementForm
  infer_instance

theorem callStatement : Tracks fit free AlikeEnds callStatement callStatement := by
  have content : Tracks fit free Any
      (do
        let attributes ← Grammar.outerAttributes
        let named ← Grammar.namedCall
        let _ ← Grammar.symbol? ";"
        return (attributes, named))
      (do
        let attributes ← Grammar.outerAttributes
        let named ← Grammar.namedCall
        let _ ← Grammar.symbol? ";"
        return (attributes, named)) :=
    seq fun _ => namedCall.bind fun _ _ _ => seq fun _ => pure_of trivial
  exact (placed : Tracks fit free (OnFirst Any) _ _).bind fun _ _ _ => pure_of rfl

end

section

variable [Sound fit] {r r' : Rules} [tracked : Rules.Tracked fit r r']

instance otherwise? : Tracks fit free Eq (otherwise? r) (otherwise? r') := by
  unfold Grammar.otherwise?
  infer_instance

instance declaration : Tracks fit free Any (declaration r) (declaration r') := by
  have value : Tracks fit free Any
      (do
        let value ← r.expression true
        let conditional ← Grammar.otherwise? r
        Grammar.symbol ";"
        match value, conditional with
        | .call call, false => return some call
        | _, _ => return none)
      (do
        let value ← r'.expression true
        let conditional ← Grammar.otherwise? r'
        Grammar.symbol ";"
        match value, conditional with
        | .call call, false => return some call
        | _, _ => return none) := by
    refine (expression true).bind fun value value' _ => seq fun conditional => seq fun _ => ?_
    split <;> split <;> exact pureAny _ _
  unfold Grammar.declaration
  infer_instance

theorem declarationStatement :
    Tracks fit free AlikeEnds (declarationStatement r) (declarationStatement r') :=
  (placed : Tracks fit free (OnFirst Any) _ _).bind fun _ _ _ => pure_of rfl

theorem expressionStatement :
    Tracks fit false AlikeEnds (expressionStatement r) (expressionStatement r') := by
  have content : Tracks fit false (OnRound Similar)
      (do
        let _ ← Grammar.outerAttributes
        let shape ← r.early
        return (shape, ← Grammar.symbol? ";"))
      (do
        let _ ← Grammar.outerAttributes
        let shape ← r'.early
        return (shape, ← Grammar.symbol? ";")) :=
    seq fun _ => tracked.early.bind fun _ _ similar => seq fun _ => pure_of ⟨similar, rfl⟩
  refine (placed : Tracks fit false (OnFirst (OnRound Similar)) _ _).bind fun x y alike => ?_
  obtain ⟨similar, ended⟩ := alike
  refine pure_of ?_
  change (!y.1.2 && y.1.1.needsEnd) = (!x.1.2 && x.1.1.needsEnd)
  rw [similar.needsEnd, ended]

theorem statement : Tracks fit false AlikeEnds (statement r) (statement r') := by
  refine seq fun form => ?_
  cases form with
  | call => exact callStatement
  | declaration => exact declarationStatement
  | item => exact tracked.item.bind fun _ _ _ => pure_of rfl
  | expression => exact expressionStatement

instance statements : Tracks fit false Any (statements r) (statements r') := by
  have one (read read' : List Statement) : Tracks fit false (OnRound Any)
      (do
        let shape ← Grammar.statement r
        let read := shape.kept.toList ++ read
        if ← Grammar.peek .nothing then return (read, false)
        if shape.final then Grammar.refuse
        return (read, true))
      (do
        let shape ← Grammar.statement r'
        let read := shape.kept.toList ++ read'
        if ← Grammar.peek .nothing then return (read, false)
        if shape.final then Grammar.refuse
        return (read, true)) := by
    refine statement.bind fun shape shape' alike => seq fun done => ?_
    rw [show shape'.final = shape.final from alike]
    infer_instance
  unfold Grammar.statements
  infer_instance

end

/-! ## Signatures -/

section

variable [Hereditary fit]

instance pubScope? : Tracks fit free Eq pubScope? pubScope? := by
  unfold Grammar.pubScope?
  infer_instance

instance visibility? : Tracks fit free Eq visibility? visibility? := by
  unfold Grammar.visibility?
  infer_instance

instance receiver : Tracks fit free Eq receiver receiver := by
  unfold Grammar.receiver
  infer_instance

instance receiverAhead : Tracks fit false Eq receiverAhead receiverAhead := by
  have content : Tracks fit false Eq
      (do
        match ← Grammar.optional? Grammar.receiver with
        | some _ => return !(← Grammar.peek (.symbol ":"))
        | none => return false)
      (do
        match ← Grammar.optional? Grammar.receiver with
        | some _ => return !(← Grammar.peek (.symbol ":"))
        | none => return false) := by
    refine seq fun found => ?_
    cases found <;> infer_instance
  exact ahead

end

section

variable [Sound fit] {r r' : Rules} [tracked : Rules.Tracked fit r r']

instance signatureAhead : Tracks fit free Eq signatureAhead signatureAhead := by
  unfold Grammar.signatureAhead
  infer_instance

instance functionArgument : Tracks fit false Eq (functionArgument r) (functionArgument r') := by
  unfold Grammar.functionArgument
  infer_instance

instance functionArguments : Tracks fit false Eq (functionArguments r) (functionArguments r') := by
  unfold Grammar.functionArguments
  infer_instance

instance signature : Tracks fit free Eq (signature r) (signature r') := by
  unfold Grammar.signature
  infer_instance

end

/-! ## Members -/

section

variable [Sound fit] {r r' : Rules} [tracked : Rules.Tracked fit r r']

instance aliasBounds : Tracks fit free Eq (aliasBounds r) (aliasBounds r') := by
  unfold Grammar.aliasBounds
  infer_instance

instance aliasItem (place : WherePlace) :
    Tracks fit free Eq (aliasItem r place) (aliasItem r' place) := by
  unfold Grammar.aliasItem
  infer_instance

instance nameOrUnderscore : Tracks fit free Eq nameOrUnderscore nameOrUnderscore := by
  unfold Grammar.nameOrUnderscore
  infer_instance

instance typedValue? : Tracks fit free Eq (typedValue? r) (typedValue? r') := by
  unfold Grammar.typedValue?
  infer_instance

instance foreignMember : Tracks fit free Eq (foreignMember r) (foreignMember r') := by
  unfold Grammar.foreignMember
  refine seq fun _ => seq fun visible => ask inferInstance <| ask inferInstance ?_
  infer_instance

instance traitMember : Tracks fit free Eq (traitMember r) (traitMember r') := by
  unfold Grammar.traitMember
  refine seq fun _ => seq fun visible => seq fun optional => ask inferInstance ?_
  infer_instance

instance specializable? : Tracks fit free Eq specializable? specializable? := by
  unfold Grammar.specializable?
  infer_instance

instance implementationMember :
    Tracks fit free Any (implementationMember r) (implementationMember r') := by
  unfold Grammar.implementationMember
  refine seq fun _ => seq fun visible => seq fun specializable => ask inferInstance ?_
  infer_instance

end

/-! ## Data types -/

section

variable [Sound fit] {r r' : Rules} [tracked : Rules.Tracked fit r r']

instance namedField : Tracks fit free Eq (namedField r) (namedField r') := by
  unfold Grammar.namedField
  infer_instance

instance namedFields : Tracks fit free Eq (namedFields r) (namedFields r') := by
  unfold Grammar.namedFields
  infer_instance

instance positionalFields : Tracks fit free Eq (positionalFields r) (positionalFields r') := by
  unfold Grammar.positionalFields
  infer_instance

instance variant : Tracks fit free Eq (variant r) (variant r') := by
  unfold Grammar.variant
  infer_instance

end

end Tracks

end MacroExpansion.Grammar
