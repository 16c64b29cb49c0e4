import MacroExpansion.Proofs.Grammar.Tracks.Literal

/-!
# Attributes, paths and types

Each rule goes the same way if the rules that it uses do. A function type is the only one of them
that may break off: it does so for what follows a `mut self` among its arguments.
-/
namespace MacroExpansion.Grammar

open TokenTree

/-- Expressions that differ in the invocation they are at most. -/
inductive Similar : ExprShape → ExprShape → Prop where
  | call (call call' : MacroCall) : Similar (.call call) (.call call')
  | same (shape : ExprShape) : Similar shape shape

instance : Std.Refl Similar where
  refl := .same

/-- The rules that nest go the same way. -/
class Rules.Tracked (fit : List TokenTree → Prop) (r r' : Rules) : Prop where
  type : ∀ free plus, Tracks fit free Eq (r.type plus) (r'.type plus)
  bound : ∀ free, Tracks fit free Eq r.bound r'.bound
  operand : ∀ free structs, Tracks fit free Similar (r.operand structs) (r'.operand structs)
  climb : ∀ {free structs left left' base}, Similar left left' →
    Tracks fit free Similar (r.climb structs left base) (r'.climb structs left' base)
  /-- An operator that stands ahead is read by what it binds. -/
  climbs : ∀ {structs left c a d}, precedenceAhead c.rest ≠ .none →
    r.climb structs left (precedenceAhead c.rest) c = .ok (a, d) → d.rest.length < c.rest.length
  early : Tracks fit false Similar r.early r'.early
  pattern : ∀ free, Tracks fit free Eq r.pattern r'.pattern
  statements : Tracks fit false Any r.statements r'.statements
  item : Tracks fit false Any r.item r'.item
  useTree : ∀ free, Tracks fit free Eq r.useTree r'.useTree
  namedFields : ∀ free, Tracks fit free Eq r.namedFields r'.namedFields

attribute [instance] Rules.Tracked.type Rules.Tracked.bound Rules.Tracked.operand
  Rules.Tracked.early Rules.Tracked.pattern Rules.Tracked.statements Rules.Tracked.item
  Rules.Tracked.useTree Rules.Tracked.namedFields

/-! ## Questions that are asked -/

instance {n : Nat} : Decided (n + 1) Look.colon := by
  unfold Look.colon
  infer_instance

instance : Placeless Look.colon := by
  unfold Look.colon
  infer_instance

instance {n : Nat} : Decided (n + 1) Look.pathStart := by
  unfold Look.pathStart
  infer_instance

instance : Placeless Look.pathStart := by
  unfold Look.pathStart
  infer_instance

instance {n : Nat} : Decided (n + 1) plainSegment := by
  unfold plainSegment
  infer_instance

instance : Placeless plainSegment := by
  unfold plainSegment
  infer_instance

instance {n : Nat} : Decided (n + 1) parenthesesAhead := by
  unfold parenthesesAhead
  infer_instance

instance : Placeless parenthesesAhead := by
  unfold parenthesesAhead
  infer_instance

instance {n : Nat} : Decided (n + 1) entryEnd := by
  unfold entryEnd
  infer_instance

instance : Placeless entryEnd := by
  unfold entryEnd
  infer_instance

instance {n : Nat} : Decided (n + 1) clauseEnd := by
  unfold clauseEnd
  infer_instance

instance : Placeless clauseEnd := by
  unfold clauseEnd
  infer_instance

instance {n : Nat} : Decided (n + 1) boundStart := by
  unfold boundStart
  infer_instance

instance : Placeless boundStart := by
  unfold boundStart
  infer_instance

instance {n : Nat} : Decided (n + 1) generalTypeStart := by
  unfold generalTypeStart
  infer_instance

instance : Placeless generalTypeStart := by
  unfold generalTypeStart
  infer_instance

namespace Tracks

variable {fit : List TokenTree → Prop} {free : Bool}

/-! ## Attributes and plain paths -/

section

variable [Hereditary fit]

instance plainSegments : Tracks fit free Eq plainPath.separatedSegments
    plainPath.separatedSegments := by
  unfold plainPath.separatedSegments
  infer_instance

instance plainPath : Tracks fit free Eq plainPath plainPath := by
  unfold Grammar.plainPath
  infer_instance

instance skipAll : Tracks fit free Any skipAll skipAll := by
  unfold Grammar.skipAll
  infer_instance

instance attributeBrackets : Tracks fit free Eq attributeBrackets attributeBrackets := by
  unfold Grammar.attributeBrackets
  infer_instance

instance outerAttributes : Tracks fit free Eq outerAttributes outerAttributes := by
  unfold Grammar.outerAttributes
  infer_instance

instance innerAttributes : Tracks fit free Eq innerAttributes innerAttributes := by
  have question : Steady free fun ts =>
      !(Look.symbol "#" ts && Look.second (Look.symbol "!") ts) :=
    inferInstanceAs (Steady free fun ts => !(Look.both (.symbol "#") (.second (.symbol "!"))) ts)
  unfold Grammar.innerAttributes
  infer_instance

instance here : Tracks fit free Any here here :=
  of_noted fun _ _ _ _ _ => pure_of trivial

/-- An invocation's path and group are the same, but for their places. -/
structure AlikeCalls (x y : MacroCall) : Prop where
  path : y.path = x.path
  delimiter : y.delimiter = x.delimiter

instance : Std.Refl AlikeCalls where
  refl _ := ⟨rfl, rfl⟩

theorem callOf (path : MacroPath) (start start' : Position) :
    Tracks fit free AlikeCalls (callOf path start) (callOf path start') :=
  seq fun _ => anyGroup.bind fun _ _ related => pure_of ⟨rfl, related.1⟩

instance callOfAny (path : MacroPath) (start start' : Position) :
    Tracks fit free Any (Grammar.callOf path start) (Grammar.callOf path start') :=
  (callOf path start start').weaken fun _ _ _ => trivial

end

/-! ## Paths and bounds -/

section

variable [Hereditary fit] {r r' : Rules} [tracked : Rules.Tracked fit r r']

instance expression (structs : Bool) :
    Tracks fit free Similar (r.expression structs) (r'.expression structs) :=
  (tracked.operand free structs).bind fun _ _ similar => tracked.climb similar

instance (priority := low) anyOfSimilar {p q : Parser ExprShape} [h : Tracks fit free Similar p q] :
    Tracks fit free Any p q :=
  h.weaken fun _ _ _ => trivial

instance noteOrder (list : Separated Bool) :
    Tracks fit free Eq (noteOrder list) (noteOrder list) := by
  unfold Grammar.noteOrder
  infer_instance

/-- The attributes of a block are the same. -/
instance attributedBlock :
    Tracks fit free (OnFirst Eq) (attributedBlock r) (attributedBlock r') := by
  unfold Grammar.attributedBlock
  have content (attributes : List String) : Tracks fit false (OnFirst Eq)
      (do return (attributes, ← r.statements)) (do return (attributes, ← r'.statements)) :=
    (Rules.Tracked.statements : Tracks fit false Any r.statements r'.statements).bind
      fun _ _ _ => pure_of rfl
  infer_instance

instance attributedBlockAny : Tracks fit free Any (Grammar.attributedBlock r)
    (Grammar.attributedBlock r') :=
  attributedBlock.weaken fun _ _ _ => trivial

instance returnType? (plus : Bool) :
    Tracks fit free Eq (returnType? r plus) (returnType? r' plus) := by
  unfold Grammar.returnType?
  infer_instance

instance parenthesizedArguments :
    Tracks fit free Eq (parenthesizedArguments r) (parenthesizedArguments r') := by
  unfold Grammar.parenthesizedArguments
  infer_instance

instance lifetimeParameter :
    Tracks fit free Eq lifetimeParameter lifetimeParameter := by
  unfold Grammar.lifetimeParameter
  infer_instance

instance binder : Tracks fit free Eq binder binder := by
  unfold Grammar.binder
  infer_instance

instance binder? : Tracks fit free Eq binder? binder? := by
  unfold Grammar.binder?
  infer_instance

instance boundsUpTo (stop : Look) [Steady free stop] :
    Tracks fit free Eq (boundsUpTo r stop) (boundsUpTo r' stop) := by
  unfold Grammar.boundsUpTo
  infer_instance

instance typeArgument : Tracks fit free Eq (typeArgument r) (typeArgument r') := by
  unfold Grammar.typeArgument
  infer_instance

end

section

variable [Sound fit] {r r' : Rules} [Rules.Tracked fit r r']

instance argument : Tracks fit free Eq (argument r) (argument r') := by
  unfold Grammar.argument
  refine ask inferInstance <| ask inferInstance ?_
  infer_instance

instance angledArguments : Tracks fit free Eq (angledArguments r) (angledArguments r') := by
  unfold Grammar.angledArguments
  infer_instance

instance segment (expression : Bool) :
    Tracks fit free Eq (segment r expression) (segment r' expression) := by
  unfold Grammar.segment
  infer_instance

instance moreSegments (expression : Bool) (path : PathShape) :
    Tracks fit free Eq (moreSegments r expression path) (moreSegments r' expression path) := by
  unfold Grammar.moreSegments
  infer_instance

instance path (expression : Bool) :
    Tracks fit free Eq (path r expression) (path r' expression) := by
  unfold Grammar.path
  infer_instance

instance traitBound : Tracks fit free Eq (traitBound r) (traitBound r') := by
  unfold Grammar.traitBound
  infer_instance

instance bound : Tracks fit free Eq (bound r) (bound r') := by
  unfold Grammar.bound
  infer_instance

instance qualifiedPath (expression : Bool) :
    Tracks fit free Eq (qualifiedPath r expression) (qualifiedPath r' expression) := by
  unfold Grammar.qualifiedPath
  refine ask (seq fun _ => seq fun named => ?_) inferInstance
  infer_instance

instance typePath : Tracks fit free Eq (typePath r) (typePath r') := by
  have taken : Takes fit free Eq (Grammar.parenthesizedArguments r)
      (Grammar.parenthesizedArguments r') := by
    unfold Grammar.parenthesizedArguments
    infer_instance
  unfold Grammar.typePath
  refine seq fun (qualified, path) => loop (fun path => ?_) fun path => inferInstance
  dsimp only
  split
  · refine .bind (peek parenthesesAhead) fun ahead _ same => ?_
    subst same
    split
    · refine .after taken fun result _ same => ?_
      subst same
      split <;> infer_instance
    · infer_instance
  · infer_instance

end

/-! ## Generic parameters -/

section

variable [Sound fit] {r r' : Rules} [Rules.Tracked fit r r']

instance constantArgument :
    Tracks fit free Eq (constantArgument r) (constantArgument r') := by
  unfold Grammar.constantArgument
  infer_instance

instance parameterBounds : Tracks fit free Eq (parameterBounds r) (parameterBounds r') := by
  unfold Grammar.parameterBounds
  infer_instance

instance typeParameter : Tracks fit free Eq (typeParameter r) (typeParameter r') := by
  unfold Grammar.typeParameter
  infer_instance

instance constantParameter :
    Tracks fit free Eq (constantParameter r) (constantParameter r') := by
  unfold Grammar.constantParameter
  infer_instance

instance parameter : Tracks fit free Eq (parameter r) (parameter r') := by
  unfold Grammar.parameter
  infer_instance

instance generics? : Tracks fit free Eq (generics? r) (generics? r') := by
  unfold Grammar.generics?
  infer_instance

instance predicate : Tracks fit free Eq (predicate r) (predicate r') := by
  unfold Grammar.predicate
  infer_instance

instance whereClause : Tracks fit free Eq (whereClause r) (whereClause r') := by
  unfold Grammar.whereClause
  infer_instance

instance whereClause? : Tracks fit free Eq (whereClause? r) (whereClause? r') := by
  unfold Grammar.whereClause?
  infer_instance

end

/-! ## Types -/

section

variable [Sound fit] {r r' : Rules} [Rules.Tracked fit r r']

instance boundList (plus : Bool) : Tracks fit free Eq (boundList r plus) (boundList r' plus) := by
  unfold Grammar.boundList
  infer_instance

instance objectBounds (plus : Bool) :
    Tracks fit free Eq (objectBounds r plus) (objectBounds r' plus) := by
  unfold Grammar.objectBounds
  infer_instance

instance addedBounds : Tracks fit free Eq (addedBounds r) (addedBounds r') := by
  unfold Grammar.addedBounds
  infer_instance

instance parenthesizedShape :
    Tracks fit free Eq (parenthesizedShape r) (parenthesizedShape r') := by
  unfold Grammar.parenthesizedShape
  infer_instance

instance parenthesizedType (plus : Bool) :
    Tracks fit free Eq (parenthesizedType r plus) (parenthesizedType r' plus) := by
  unfold Grammar.parenthesizedType
  refine seq fun shape => ?_
  cases shape <;> infer_instance

instance callingConvention : Tracks fit free Eq callingConvention callingConvention := by
  unfold Grammar.callingConvention
  infer_instance

instance callingConvention? : Tracks fit free Eq callingConvention? callingConvention? := by
  unfold Grammar.callingConvention?
  infer_instance

instance bareArgument : Tracks fit free Eq (bareArgument r) (bareArgument r') := by
  unfold Grammar.bareArgument
  refine seq fun _ => ask inferInstance ?_
  infer_instance

instance pathType (plus general : Bool) :
    Tracks fit free Eq (pathType r plus general) (pathType r' plus general) := by
  unfold Grammar.pathType
  refine ask inferInstance <| here.bind fun _ _ _ => seq fun (qualified, path) => ?_
  refine fork inferInstance ?_
  -- an invocation aside, every way goes on with the bounds behind the path
  extract_lets _ _ rest _ rest'
  have bounds (u : Unit) : Tracks fit free Eq (rest u) (rest' u) := by
    dsimp only [rest, rest']
    infer_instance
  clear_value rest rest'
  infer_instance

instance arrayType : Tracks fit free Eq (arrayType r) (arrayType r') := by
  unfold Grammar.arrayType
  infer_instance

end

end Tracks

/-! ## Function types

Of the arguments of a function type all but a `mut self` are read one by one. Only after one of
those is there no room for a second other argument. -/

theorem hasReceiver_suffix {taken ts : List TokenTree} (h : hasReceiver (taken ++ ts) = false) :
    hasReceiver ts = false := by
  induction taken with
  | nil => exact h
  | cons t taken ih =>
    rw [List.cons_append, hasReceiver, Bool.or_eq_false_iff] at h
    exact ih h.2

theorem receiver_ahead {ts : List TokenTree} (h : hasReceiver ts = false) :
    Look.both (.keyword "mut") (.second (.keyword "self")) ts = false := by
  cases ts with
  | nil => rfl
  | cons t ts => exact (Bool.or_eq_false_iff.mp h).1

section

variable {α β : Type} {fit : List TokenTree → Prop} {told : α → Prop} {given : β → Prop}

/-- Without a `mut self` ahead the reading is not broken off, and there is none ahead after it. -/
def Passes (fit : List TokenTree → Prop) (told : α → Prop) (p : Parser α) : Prop :=
  ∀ c, fit c.rest → hasReceiver c.rest = false → p c ≠ .error .aborted ∧
    ∀ a d, p c = .ok (a, d) → fit d.rest ∧ hasReceiver d.rest = false ∧ told a

namespace Passes

theorem refuse : Passes fit told refuse := by
  refine fun _ _ _ => ⟨?_, ?_⟩
  · intro broken
    cases broken
  · intro _ _ read
    cases read

theorem pure {a : α} (h : told a) : Passes fit told (pure a) := by
  refine fun _ fits free => ⟨?_, ?_⟩
  · intro broken
    cases broken
  · intro _ _ read
    cases read
    exact ⟨fits, free, h⟩

theorem bind {p : Parser β} {f : β → Parser α} (first : Passes fit given p)
    (later : ∀ b, given b → Passes fit told (f b)) : Passes fit told (p >>= f) := by
  intro c fits free
  obtain ⟨unbroken, stays⟩ := first c fits free
  constructor
  · intro broken
    rcases of_bind_aborted broken with early | ⟨b, d, early, late⟩
    · exact unbroken early
    · obtain ⟨fits, free, holds⟩ := stays b d early
      exact (later b holds d fits free).1 late
  · intro a e read
    obtain ⟨b, d, early, late⟩ := of_bind read
    obtain ⟨fits, free, holds⟩ := stays b d early
    exact (later b holds d fits free).2 a e late

theorem of_tracks [Hereditary fit] {R : α → α → Prop} {p q : Parser α}
    (h : Tracks fit true R p q) : Passes fit (fun _ => True) p := by
  refine fun c fits receiverless => ⟨h.unbroken fits, fun a d read => ?_⟩
  obtain ⟨taken, took⟩ := h.reads read
  rw [took.ahead] at fits receiverless
  exact ⟨Hereditary.suffix fits, hasReceiver_suffix receiverless, trivial⟩

/-- A step of which nothing is told, and then what follows. -/
theorem after [Hereditary fit] {R : β → β → Prop} {p q : Parser β} {f : β → Parser α}
    (h : Tracks fit true R p q) (later : ∀ b, Passes fit told (f b)) :
    Passes fit told (p >>= f) :=
  (of_tracks h).bind fun b _ => later b

theorem peek {look : Look} {f : Bool → Parser α}
    (no : ∀ ts, hasReceiver ts = false → look ts = false) (later : Passes fit told (f false)) :
    Passes fit told (peek look >>= f) := by
  have seen : Passes fit (· = false) (Grammar.peek look) := by
    refine fun c fits free => ⟨?_, ?_⟩
    · intro broken
      cases broken
    · intro a d read
      obtain ⟨rfl, rfl⟩ := of_peek read
      exact ⟨fits, free, no _ free⟩
  exact seen.bind fun b same => same ▸ later

/-- What is told of the start of a round is told of the start of the next. -/
theorem roundsWithin (given : β → Prop) {round : β → Parser (β × Bool)}
    (step : ∀ b, given b →
      Passes fit (fun next => next.2 = true → given next.1) (round b)) (n : Nat) (b : β)
    (h : given b) : Passes fit (fun _ => True) (roundsWithin round n b) := by
  induction n generalizing b with
  | zero => exact refuse
  | succ n ih =>
    refine (step b h).bind fun (b', again) holds => ?_
    cases again with
    | true => exact ih b' (holds rfl)
    | false => exact pure trivial

end Passes

end

theorem passes_bareArgument {fit : List TokenTree → Prop} [Sound fit] (r r' : Rules)
    [tracked : Rules.Tracked fit r r'] : Passes fit (· = false) (bareArgument r) := by
  have closing : Passes fit (· = false) (do
      if ← symbol? "..." then return false
      if ← peek (.both (.keyword "mut") (.second (.keyword "self"))) then
        trees 2
        return true
      let _ ← r.type true
      return false) := by
    refine .after (Tracks.symbol? "...") fun dots => ?_
    split
    · exact .pure rfl
    · exact .peek (fun _ => receiver_ahead) (.after (tracked.type true true) fun _ => .pure rfl)
  refine .after (Tracks.outerAttributes) fun _ => .after (Tracks.peek _) fun named => ?_
  split
  · exact .after (Tracks.trees 2) fun _ => closing
  · refine .peek (fun ts free => ?_) closing
    have noReceiver := receiver_ahead free
    unfold Look.both at noReceiver ⊢
    rcases Bool.and_eq_false_iff.mp noReceiver with no | no <;> rw [no] <;> simp

/-- Without a `mut self` there is room for every argument. -/
theorem passes_bareArguments {fit : List TokenTree → Prop} [Sound fit] (r r' : Rules)
    [tracked : Rules.Tracked fit r r'] : Passes fit (fun _ => True) (bareArguments r) := by
  have fresh (a : BareArguments) (start : a.receiver = false ∧ a.ready = true) :
      a = ⟨false, true⟩ := by
    obtain ⟨receiver, ready⟩ := a
    obtain ⟨rfl, rfl⟩ := start
    rfl
  refine .bind (fun c fits free => ?_) fun read (_ : True) => .pure trivial
  refine Passes.roundsWithin (fun a => a.receiver = false ∧ a.ready = true) (fun a start => ?_) _ _
    ⟨rfl, rfl⟩ c fits free
  rw [fresh a start]
  refine .after (Tracks.peek _) fun done => ?_
  split
  · exact .pure fun again => nomatch again
  refine .after (Tracks.outerAttributes) fun _ => ?_
  refine .after (Tracks.symbol? "...") fun dots => ?_
  split
  · exact .pure fun again => nomatch again
  refine (passes_bareArgument r r').bind fun receiver noReceiver => ?_
  subst noReceiver
  simp only [Bool.false_eq_true, ↓reduceIte, pure_bind]
  refine .after (Tracks.peek _) fun done => ?_
  split
  · exact .pure fun again => nomatch again
  exact .after (Tracks.symbol ",") fun _ => .pure fun _ => ⟨rfl, rfl⟩

section

variable {fit : List TokenTree → Prop}

theorem Rules.Tracked.narrow {less : List TokenTree → Prop} {r r' : Rules}
    (h : Rules.Tracked fit r r') (fits : ∀ ts, less ts → fit ts) : Rules.Tracked less r r' where
  type free plus := (h.type free plus).narrow fits
  bound free := (h.bound free).narrow fits
  operand free structs := (h.operand free structs).narrow fits
  climb similar := (h.climb similar).narrow fits
  climbs := h.climbs
  early := h.early.narrow fits
  pattern free := (h.pattern free).narrow fits
  statements := h.statements.narrow fits
  item := h.item.narrow fits
  useTree free := (h.useTree free).narrow fits
  namedFields free := (h.namedFields free).narrow fits

/-- Where no tokens are fit, it is left open what breaks off. -/
instance : Sound fun _ => False where
  tail _ _ h := h
  content _ _ _ _ h := h
  valued h := h.elim
  receiverless h := h.elim

end

namespace Tracks

variable {fit : List TokenTree → Prop} {free : Bool} {α : Type} {R : α → α → Prop}

instance abort (q : Parser α) : Tracks (fun _ => False) free R abort q where
  reads h := by cases h
  unbroken h := h.elim
  carries _ read _ := by cases read

instance bareArguments {r r' : Rules} [Rules.Tracked (fun _ => False) r r'] :
    Tracks (fun _ => False) false Eq (bareArguments r) (bareArguments r') := by
  unfold Grammar.bareArguments
  refine loop (fun read => ⟨ask inferInstance <| seq fun _ => ?_, nofun⟩) fun _ => inferInstance
  -- the last argument aside, every round goes on with an argument
  extract_lets _ rest rest'
  have argument (u : Unit) : Tracks (fun _ => False) false Eq (rest u) (rest' u) := by
    dsimp only [rest, rest']
    infer_instance
  clear_value rest rest'
  infer_instance

/-- What goes the same way is broken off by what it is told to be. -/
theorem of_inert {p q : Parser α} (inert : Tracks (fun _ => False) free R p q)
    (unbroken : ∀ {c}, fit c.rest → p c ≠ .error .aborted) : Tracks fit free R p q where
  reads := inert.reads
  unbroken := unbroken
  carries := inert.carries

variable [sound : Sound fit] {r r' : Rules} [tracked : Rules.Tracked fit r r']

/-- The arguments of a function type stand after the keyword, so that none of them is a receiver. -/
instance bareFunction {f g : Bool → Parser α}
    [later : ∀ receiver, Tracks fit free R (f receiver) (g receiver)] : Tracks fit free R
      (Grammar.keyword "fn" >>= fun _ => Grammar.delimited .paren (Grammar.bareArguments r) >>= f)
      (Grammar.keyword "fn" >>= fun _ => Grammar.delimited .paren (Grammar.bareArguments r') >>= g)
    := by
  have nested : Rules.Tracked (fun _ => False) r r' := tracked.narrow fun _ h => h.elim
  have rest (receiver : Bool) : Tracks (fun _ => False) free R (f receiver) (g receiver) :=
    (later receiver).narrow fun _ h => h.elim
  refine of_inert inferInstance fun {c} fits broken => ?_
  rcases of_bind_aborted broken with early | ⟨_, d, early, broken⟩
  · exact (Tracks.keyword "fn" : Tracks fit true Eq _ _).unbroken fits early
  obtain ⟨ahead, read⟩ := of_unless early
  obtain ⟨t, _, read, given⟩ := of_bind read
  cases given
  have word := of_tree read
  rw [word] at fits ahead
  rcases of_bind_aborted broken with early | ⟨receiver, e, early, broken⟩
  · obtain ⟨content, extent, _, group, broken⟩ := of_delimited_aborted early
    rw [group] at fits
    have inside : fit content := Hereditary.content _ _ _ _ (Hereditary.tail _ _ fits)
    have free : hasReceiver content = false := by
      cases t with
      | ident spelling extent =>
        obtain rfl : spelling = "fn" := beq_iff_eq.mp ahead
        exact sound.receiverless fits
      | _ => cases ahead
    exact (passes_bareArguments r r' _ inside free).1 broken
  · have behind : fit d.rest := Hereditary.tail _ _ fits
    obtain ⟨taken, took⟩ := (Tracks.delimited : Tracks (fun _ => False) true Eq
      (Grammar.delimited .paren (Grammar.bareArguments r))
      (Grammar.delimited .paren (Grammar.bareArguments r'))).reads early
    rw [took.ahead] at behind
    exact (later receiver).unbroken (Hereditary.suffix behind) broken

instance functionType : Tracks fit free Eq (functionType r) (functionType r') := by
  unfold Grammar.functionType
  infer_instance

instance type (plus : Bool) : Tracks fit free Eq (type r plus) (type r' plus) := by
  unfold Grammar.type
  refine seq fun general => ?_
  -- with a binder or without one, what follows is the same
  extract_lets _ rest _ rest'
  have later (u : Unit) : Tracks fit free Eq (rest u) (rest' u) := by
    refine ask inferInstance <| ask inferInstance <| ask inferInstance <| ask inferInstance ?_
    infer_instance
  clear_value rest rest'
  infer_instance

end Tracks

end MacroExpansion.Grammar
