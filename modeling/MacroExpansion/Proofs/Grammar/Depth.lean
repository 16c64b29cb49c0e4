import MacroExpansion.Proofs.Grammar.Tracks.Item

/-!
# How deep rules nest

The rules are tied to each other a number of times. Two rules that are built alike, but from rules
that nest otherwise, do the same on tokens that are light enough for the rules they use. A rule that
uses others only after a token, or in a group, asks less of them.
-/
namespace MacroExpansion.Grammar

open TokenTree

variable {α β : Type}

/-! ## Weights -/

theorem weight_pos (t : TokenTree) : 0 < t.weight := by
  cases t <;> simp [weight]

theorem weightOfAll_append (ts us : List TokenTree) :
    weightOfAll (ts ++ us) = weightOfAll ts + weightOfAll us := by
  induction ts with
  | nil => simp [weightOfAll]
  | cons t ts ih => rw [List.cons_append, weightOfAll, ih, weightOfAll, Nat.add_assoc]

theorem length_le_weightOfAll (ts : List TokenTree) : ts.length ≤ weightOfAll ts := by
  induction ts with
  | nil => exact Nat.zero_le _
  | cons t ts ih =>
    have positive := weight_pos t
    rw [weightOfAll, List.length_cons]
    omega

mutual

theorem weight_unplaced (t : TokenTree) : t.unplaced.weight = t.weight := by
  match t with
  | .ident _ _ | .punct _ _ _ | .literal _ _ => rfl
  | .group _ content _ => rw [unplaced, weight, weight, weightOfAll_unplacedAll content]

theorem weightOfAll_unplacedAll (ts : List TokenTree) :
    weightOfAll (unplacedAll ts) = weightOfAll ts := by
  match ts with
  | [] => rfl
  | t :: ts =>
    rw [unplacedAll, weightOfAll, weightOfAll, weight_unplaced t, weightOfAll_unplacedAll ts]

end

/-! ## What is left -/

/-- What a parser leaves are the last of the tokens that it is given. -/
class Leaves (p : Parser α) : Prop where
  reads : ∀ {c a d}, p c = .ok (a, d) → ∃ taken, Took taken c d

namespace Leaves

instance of_moves {p : Parser α} [moves : Moves p] : Leaves p where
  reads := moves.reads

instance of_closed {p : Parser α} [closes : Closes (fun _ => False) Eq p p] : Leaves p where
  reads read := (closes.reads read).imp fun _ h => h.1

instance of_closed_body {p : Parser ItemBody}
    [closes : Closes (fun _ => False) AlikeBodies p p] : Leaves p where
  reads read := (closes.reads read).imp fun _ h => h.1

instance of_attributed {p : Parser (α × β)} [closes : Closes (fun _ => False) (OnFirst Eq) p p] :
    Leaves p where
  reads read := (closes.reads read).imp fun _ h => h.1

instance (priority := low) bind {p : Parser β} {f : β → Parser α} [first : Leaves p]
    [later : ∀ b, Leaves (f b)] : Leaves (p >>= f) where
  reads read := by
    obtain ⟨b, mid, one, rest⟩ := of_bind read
    obtain ⟨taken, took⟩ := first.reads one
    obtain ⟨more, took'⟩ := (later b).reads rest
    exact ⟨taken ++ more, took.trans took'⟩

/-- A step, and then what follows from it. -/
theorem seq {p : Parser β} {f : β → Parser α} [Leaves p] (later : ∀ b, Leaves (f b)) :
    Leaves (p >>= f) :=
  bind

instance got : Leaves (get : Parser Cursor) where
  reads read := by
    cases read
    exact ⟨[], .refl _⟩

instance peek (look : Look) : Leaves (peek look) where
  reads read := by
    cases read
    exact ⟨[], .refl _⟩

instance (priority := low) ite {condition : Prop} [Decidable condition] {p q : Parser α}
    [yes : Leaves p] [no : Leaves q] : Leaves (if condition then p else q) := by
  split
  · exact yes
  · exact no

/-- A question, and then what follows either answer. -/
instance (priority := low) asked {told : β → Prop} [DecidablePred told] {p : Parser β}
    {f g : Parser α} [Leaves p] [Leaves f] [Leaves g] :
    Leaves (p >>= fun b => if told b then f else g) :=
  bind

theorem roundsWithin {f : α → Parser (α × Bool)} (step : ∀ a, Leaves (f a)) (n : Nat) (a : α) :
    Leaves (roundsWithin f n a) := by
  induction n generalizing a with
  | zero => exact ⟨fun read => by cases read⟩
  | succ n ih =>
    have := step a
    refine seq fun result => ?_
    obtain ⟨b, again⟩ := result
    cases again with
    | true => exact ih b
    | false => infer_instance

instance (priority := low) rounds {f : α → Parser (α × Bool)} [step : ∀ a, Leaves (f a)] (a : α) :
    Leaves (rounds f a) where
  reads {c _ _} read := (roundsWithin step (c.rest.length + 1) a).reads read

instance placed {p : Parser α} [inner : Leaves p] : Leaves (placed p) where
  reads read := by
    obtain ⟨_, _, looked, read⟩ := of_bind read
    cases looked
    obtain ⟨_, _, one, read⟩ := of_bind read
    cases read
    exact inner.reads one

/-- What is left weighs no more. -/
theorem weight_le {p : Parser α} [leaves : Leaves p] {c d : Cursor} {a : α}
    (read : p c = .ok (a, d)) : weightOfAll d.rest ≤ weightOfAll c.rest := by
  obtain ⟨taken, took⟩ := leaves.reads read
  rw [took.ahead, weightOfAll_append]
  exact Nat.le_add_left _ _

/-- What is left weighs less where a token was read. -/
theorem weight_lt {p : Parser α} [leaves : Leaves p] {c d : Cursor} {a : α}
    (read : p c = .ok (a, d)) (fewer : d.rest.length < c.rest.length) :
    weightOfAll d.rest < weightOfAll c.rest := by
  obtain ⟨taken, took⟩ := leaves.reads read
  have long := length_le_weightOfAll taken
  rw [took.ahead, List.length_append] at fewer
  rw [took.ahead, weightOfAll_append]
  omega

end Leaves

/-! ## What reads a token -/

namespace Spends

instance bind_first {p : Parser β} {f : β → Parser α} [first : Spends p]
    [later : ∀ b, Moves (f b)] : Spends (p >>= f) :=
  bind_of fun read => by
    obtain ⟨_, took⟩ := (later _).reads read
    exact took.length_le

instance bind_later {p : Parser β} {f : β → Parser α} [first : Moves p]
    [later : ∀ b, Spends (f b)] : Spends (p >>= f) where
  fewer read := by
    obtain ⟨b, _, early, late⟩ := of_bind read
    obtain ⟨_, took⟩ := first.reads early
    exact Nat.lt_of_lt_of_le ((later b).fewer late) took.length_le

instance refuse : Spends (refuse : Parser α) where
  fewer read := by cases read

instance ite {condition : Prop} [Decidable condition] {p q : Parser α} [yes : Spends p]
    [no : Spends q] : Spends (if condition then p else q) := by
  split
  · exact yes
  · exact no

instance word : Spends word := by
  have given (t : TokenTree) : Moves (match t with
      | .ident spelling _ => pure spelling
      | _ => Grammar.refuse : Parser String) := by
    split <;> infer_instance
  unfold Grammar.word
  exact bind_first

instance name : Spends name := by
  unfold Grammar.name
  infer_instance

instance lifetime : Spends lifetime := by
  unfold Grammar.lifetime
  infer_instance

end Spends

/-- A token is read where the answer is yes. -/
class SpendsIf (p : Parser Bool) : Prop where
  leaves : Leaves p
  fewer : ∀ {c d}, p c = .ok (true, d) → d.rest.length < c.rest.length

namespace SpendsIf

instance symbol? (text : String) [Inked text] : SpendsIf (symbol? text) where
  leaves := inferInstance
  fewer := Onward.fewer_of_symbol?

instance keyword? (spelling : String) : SpendsIf (keyword? spelling) where
  leaves := inferInstance
  fewer read := by
    obtain ⟨seen, _, looked, later⟩ := of_bind read
    obtain ⟨-, rfl⟩ := of_peek looked
    cases seen with
    | false => cases later
    | true =>
      obtain ⟨_, _, one, given⟩ := of_bind later
      cases given
      exact Spends.tree.fewer one

end SpendsIf

/-! ## Agreement -/

/-- `p` and `q` do the same on tokens that weigh less than `w`; if they are `whole`, on tokens that
weigh just `w` as well. -/
class Agree (w : Nat) (whole : Bool) (p q : Parser α) : Prop where
  same : ∀ {c}, weightOfAll c.rest < w + whole.toNat → p c = q c

namespace Agree

variable {w : Nat} {whole : Bool}

instance refl (p : Parser α) : Agree w whole p p where
  same _ := rfl

instance (priority := low) lighter {p q : Parser α} [h : Agree w true p q] :
    Agree w false p q where
  same light := h.same (Nat.lt_succ_of_lt light)

theorem bind_of {p q : Parser β} {f g : β → Parser α} {next : Bool} (first : Agree w whole p q)
    (left : ∀ {c b d}, p c = .ok (b, d) → weightOfAll c.rest < w + whole.toNat →
      weightOfAll d.rest < w + next.toNat)
    (later : ∀ b, Agree w next (f b) (g b)) : Agree w whole (p >>= f) (q >>= g) where
  same {c} light := by
    change (p c >>= fun (b, d) => f b d) = (q c >>= fun (b, d) => g b d)
    rw [← first.same light]
    cases read : p c with
    | error failure => rfl
    | ok result => exact (later result.1).same (left read light)

instance bind {p q : Parser β} {f g : β → Parser α} [Leaves p] [first : Agree w whole p q]
    [later : ∀ b, Agree w whole (f b) (g b)] : Agree w whole (p >>= f) (q >>= g) :=
  bind_of first (fun read light => Nat.lt_of_le_of_lt (Leaves.weight_le read) light) later

/-- What follows a token sees less. -/
instance (priority := high) spent {p q : Parser β} {f g : β → Parser α} [Leaves p]
    [spends : Spends p] [first : Agree w true p q] [later : ∀ b, Agree w false (f b) (g b)] :
    Agree w true (p >>= f) (q >>= g) :=
  bind_of first (fun read light => by
    have less := Leaves.weight_lt read (spends.fewer read)
    simp only [Bool.toNat_false, Bool.toNat_true] at *
    omega) later

/-- A step whose value is not used, and then what follows it. -/
instance bindUnused {p q : Parser β} {f g : Parser α} [Leaves p] [Agree w whole p q]
    [Agree w whole f g] : Agree w whole (p >>= fun _ => f) (q >>= fun _ => g) :=
  bind

/-- What follows a token whose value is not used sees less. -/
instance (priority := high) spentUnused {p q : Parser β} {f g : Parser α} [Leaves p] [Spends p]
    [Agree w true p q] [Agree w false f g] :
    Agree w true (p >>= fun _ => f) (q >>= fun _ => g) :=
  spent

/-- A step, and then what follows from it. -/
theorem seq {p q : Parser β} {f g : β → Parser α} [Leaves p] [Agree w whole p q]
    (later : ∀ b, Agree w whole (f b) (g b)) : Agree w whole (p >>= f) (q >>= g) :=
  bind

/-- A step that reads a token, and then what follows from it. -/
theorem after {p q : Parser β} {f g : β → Parser α} [Leaves p] [Spends p] [Agree w true p q]
    (later : ∀ b, Agree w false (f b) (g b)) : Agree w true (p >>= f) (q >>= g) :=
  spent

theorem of_got {f g : Cursor → Parser α} (later : ∀ c, Agree w whole (f c) (g c)) :
    Agree w whole (get >>= f) (get >>= g) where
  same {c} light := (later c).same light

instance got {f g : Cursor → Parser α} [later : ∀ c, Agree w whole (f c) (g c)] :
    Agree w whole (get >>= f) (get >>= g) :=
  of_got later

/-- One of two ways. -/
theorem fork {condition : Prop} [Decidable condition] {p q p' q' : Parser α}
    (yes : Agree w whole p p') (no : Agree w whole q q') :
    Agree w whole (if condition then p else q) (if condition then p' else q') := by
  split
  · exact yes
  · exact no

instance ite {condition : Prop} [Decidable condition] {p q p' q' : Parser α}
    [yes : Agree w whole p p'] [no : Agree w whole q q'] :
    Agree w whole (if condition then p else q) (if condition then p' else q') :=
  fork yes no

/-- A step that may be left out, and then what follows it. -/
instance (priority := high) skip {condition : Prop} [Decidable condition] {p q : Parser β}
    {f g : Parser α} [Leaves p] [first : Agree w whole p q] [later : Agree w whole f g] :
    Agree w whole (if condition then p >>= fun _ => f else f)
      (if condition then q >>= fun _ => g else g) := by
  split
  · exact bind
  · exact later

instance (priority := high) except {condition : Prop} [Decidable condition] {p q : Parser β}
    {f g : Parser α} [Leaves p] [first : Agree w whole p q] [later : Agree w whole f g] :
    Agree w whole (if condition then f else p >>= fun _ => f)
      (if condition then g else q >>= fun _ => g) := by
  split
  · exact later
  · exact bind

/-- One of two steps, and then what follows from its value. -/
instance (priority := high) either {condition : Prop} [Decidable condition] {p q p' q' : Parser β}
    {f g : β → Parser α} [Leaves p] [Leaves p'] [first : Agree w whole p q]
    [other : Agree w whole p' q'] [later : ∀ b, Agree w whole (f b) (g b)] :
    Agree w whole (if condition then p >>= f else p' >>= f)
      (if condition then q >>= g else q' >>= g) := by
  split <;> exact bind

/-- A question, and then what follows either answer. -/
theorem ask {told : β → Prop} [DecidablePred told] {p q : Parser β} {f f' g g' : Parser α}
    [Leaves p] [Agree w whole p q] (yes : Agree w whole f f') (no : Agree w whole g g') :
    Agree w whole (p >>= fun b => if told b then f else g)
      (q >>= fun b => if told b then f' else g') :=
  seq fun _ => fork yes no

instance asked {told : β → Prop} [DecidablePred told] {p q : Parser β} {f f' g g' : Parser α}
    [Leaves p] [Agree w whole p q] [yes : Agree w whole f f'] [no : Agree w whole g g'] :
    Agree w whole (p >>= fun b => if told b then f else g)
      (q >>= fun b => if told b then f' else g') :=
  ask yes no

/-- A question that reads a token where the answer is yes, and then what follows either answer. -/
theorem branch {p : Parser Bool} [spends : SpendsIf p] {f f' g g' : Parser α}
    (yes : Agree w false f f') (no : Agree w true g g') :
    Agree w true (p >>= fun seen => if seen = true then f else g)
      (p >>= fun seen => if seen = true then f' else g') where
  same {c} light := by
    change (p c >>= fun (seen, d) => (if seen = true then f else g) d) =
      (p c >>= fun (seen, d) => (if seen = true then f' else g') d)
    cases read : p c with
    | error failure => rfl
    | ok result =>
      obtain ⟨seen, d⟩ := result
      cases seen with
      | true =>
        have less := spends.leaves.weight_lt read (spends.fewer read)
        exact yes.same (by simp only [Bool.toNat_false, Bool.toNat_true] at *; omega)
      | false => exact no.same (Nat.lt_of_le_of_lt (spends.leaves.weight_le read) light)

instance (priority := high) branched {p : Parser Bool} [SpendsIf p] {f f' g g' : Parser α}
    [yes : Agree w false f f'] [no : Agree w true g g'] :
    Agree w true (p >>= fun seen => if seen = true then f else g)
      (p >>= fun seen => if seen = true then f' else g') :=
  branch yes no

/-- The content of a group weighs less than the group. -/
instance delimited (d : Delimiter) {p q : Parser α} [inner : Agree w false p q] :
    Agree w whole (delimited d p) (delimited d q) where
  same {c} light := by
    cases ahead : Look.group d c.rest with
    | false => rw [Tracks.delimited_other d p ahead, Tracks.delimited_other d q ahead]
    | true =>
      obtain ⟨content, extent, rest, ahead⟩ := Tracks.group_ahead ahead
      have less : weightOfAll content < w + Bool.toNat false := by
        rw [ahead, weightOfAll, weight] at light
        have bound := Bool.toNat_le whole
        simp only [Bool.toNat_false]
        omega
      rw [Tracks.delimited_group d p ahead, Tracks.delimited_group d q ahead,
        inner.same (c := ⟨content, false, none⟩) less]

theorem inside {d : Delimiter} {p q : Parser α} (inner : Agree w false p q) :
    Agree w whole (Grammar.delimited d p) (Grammar.delimited d q) :=
  delimited d

instance placed {p q : Parser α} [Leaves p] [Agree w whole p q] :
    Agree w whole (placed p) (placed q) := by
  unfold Grammar.placed
  infer_instance

instance ahead {p q : Parser α} [inner : Agree w whole p q] :
    Agree w whole (ahead p) (ahead q) where
  same light := by rw [Grammar.ahead, Grammar.ahead, inner.same light]

/-! ## Repetition -/

theorem roundsWithin {f g : α → Parser (α × Bool)} [∀ a, Leaves (f a)]
    (step : ∀ a, Agree w whole (f a) (g a)) (n : Nat) (a : α) :
    Agree w whole (roundsWithin f n a) (roundsWithin g n a) := by
  induction n generalizing a with
  | zero => exact refl _
  | succ n ih =>
    refine bind_of (step a)
      (fun read light => Nat.lt_of_le_of_lt (Leaves.weight_le read) light) fun (a, again) => ?_
    cases again with
    | true => exact ih a
    | false => exact refl _

instance rounds {f g : α → Parser (α × Bool)} [∀ a, Leaves (f a)]
    [step : ∀ a, Agree w whole (f a) (g a)] (a : α) :
    Agree w whole (rounds f a) (rounds g a) where
  same {c} light := (roundsWithin step (c.rest.length + 1) a).same light

/-- A loop whose rounds do the same. -/
theorem repeated {f g : α → Parser (α × Bool)} {a : α} [∀ a, Leaves (f a)]
    (step : ∀ a, Agree w whole (f a) (g a)) :
    Agree w whole (Grammar.rounds f a) (Grammar.rounds g a) :=
  rounds a

/-- A loop, and then what follows from its value. -/
theorem loop {f g : β → Parser (β × Bool)} {h k : β → Parser α} {b : β} (leaves : ∀ b, Leaves (f b))
    (step : ∀ b, Agree w whole (f b) (g b)) (later : ∀ b, Agree w whole (h b) (k b)) :
    Agree w whole (Grammar.rounds f b >>= h) (Grammar.rounds g b >>= k) :=
  bind

section

variable {p q : Parser α} [Leaves p] [Agree w whole p q]

instance untilStop (stop : Look) [Steady false stop] :
    Agree w whole (untilStop stop p) (untilStop stop q) := by
  unfold Grammar.untilStop
  infer_instance

instance untilEnd : Agree w whole (untilEnd p) (untilEnd q) := by
  unfold Grammar.untilEnd
  infer_instance

instance separatedUntil (separator : String) [Inked separator] (stop : Look) [Steady false stop] :
    Agree w whole (separatedUntil separator stop p) (separatedUntil separator stop q) := by
  unfold Grammar.separatedUntil
  infer_instance

instance separatedByCommas : Agree w whole (separatedByCommas p) (separatedByCommas q) := by
  unfold Grammar.separatedByCommas
  infer_instance

instance separatedWhile (separator : String) [Inked separator] (stop : Look) [Steady false stop] :
    Agree w whole (separatedWhile separator stop p) (separatedWhile separator stop q) := by
  unfold Grammar.separatedWhile
  infer_instance

end

end Agree

/-! ## Rules that nest otherwise -/

/-- The rules agree on tokens that weigh less than `w`. -/
class Rules.Agree (w : Nat) (r r' : Rules) : Prop where
  type : ∀ plus, Grammar.Agree w false (r.type plus) (r'.type plus)
  bound : Grammar.Agree w false r.bound r'.bound
  operand : ∀ structs, Grammar.Agree w false (r.operand structs) (r'.operand structs)
  climb : ∀ structs left base,
    Grammar.Agree w false (r.climb structs left base) (r'.climb structs left base)
  early : Grammar.Agree w false r.early r'.early
  pattern : Grammar.Agree w false r.pattern r'.pattern
  statements : Grammar.Agree w false r.statements r'.statements
  item : Grammar.Agree w false r.item r'.item
  useTree : Grammar.Agree w false r.useTree r'.useTree
  namedFields : Grammar.Agree w false r.namedFields r'.namedFields

attribute [instance] Rules.Agree.type Rules.Agree.bound Rules.Agree.operand Rules.Agree.climb
  Rules.Agree.early Rules.Agree.pattern Rules.Agree.statements Rules.Agree.item
  Rules.Agree.useTree Rules.Agree.namedFields

end MacroExpansion.Grammar
