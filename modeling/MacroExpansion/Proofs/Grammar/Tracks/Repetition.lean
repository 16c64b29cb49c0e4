import MacroExpansion.Proofs.Grammar.Tracks

/-!
# Repetition

A loop goes the same way if its rounds do. Where other tokens may follow, there may be fewer of them
than before, and so fewer rounds: each round but the last has to read a token.
-/
namespace MacroExpansion.Grammar

open TokenTree

variable {α β : Type}

/-- A token is read. -/
class Spends (p : Parser α) : Prop where
  fewer : ∀ {c a d}, p c = .ok (a, d) → d.rest.length < c.rest.length

/-- `q` goes the same way as `p`, and where other tokens may follow, a token is read for each value
that `goes` on. -/
class Onward (fit : List TokenTree → Prop) (free : Bool) (goes : α → Bool) (R : α → α → Prop)
    (p q : Parser α) : Prop where
  tracks : Tracks fit free R p q
  fewer : ∀ {c a d}, free = true → p c = .ok (a, d) → goes a = true →
    d.rest.length < c.rest.length

/-- A token is read for each value. -/
abbrev Takes (fit : List TokenTree → Prop) (free : Bool) (R : α → α → Prop) (p q : Parser α) :
    Prop :=
  Onward fit free (fun _ => true) R p q

/-- A token is read in each round but the last. -/
abbrev Repeats (fit : List TokenTree → Prop) (free : Bool) (R : α × Bool → α × Bool → Prop)
    (p q : Parser (α × Bool)) : Prop :=
  Onward fit free Prod.snd R p q

theorem Took.length_le {taken : List TokenTree} {c d : Cursor} (took : Took taken c d) :
    d.rest.length ≤ c.rest.length := by
  rw [took.ahead, List.length_append]
  exact Nat.le_add_left _ _

/-! ## What reads a token -/

namespace Spends

instance tree : Spends tree where
  fewer read := by
    rw [of_tree read, List.length_cons]
    exact Nat.lt_succ_self _

/-- A first step that reads a token. -/
theorem bind_of {p : Parser β} {f : β → Parser α} [first : Spends p]
    (later : ∀ {b c a d}, f b c = .ok (a, d) → d.rest.length ≤ c.rest.length) :
    Spends (p >>= f) where
  fewer read := by
    obtain ⟨b, _, early, late⟩ := of_bind read
    exact Nat.lt_of_le_of_lt (later late) (first.fewer early)

theorem guarded {look : Look} {p : Parser α} [h : Spends p] :
    Spends (do
      unless ← peek look do refuse
      p) where
  fewer read := h.fewer (of_unless read).2

instance trees (n : Nat) : Spends (trees (n + 1)) := by
  have later : Tracks (fun _ => True) true Eq (Grammar.trees n) (Grammar.trees n) := inferInstance
  exact bind_of fun read => (later.reads read).choose_spec.length_le

instance keyword (spelling : String) : Spends (keyword spelling) := by
  have last : Spends (do let _ ← Grammar.tree : Parser Unit) := bind_of fun read => by
    cases read
    exact Nat.le_refl _
  exact guarded

instance symbol (text : String) [inked : Inked text] : Spends (symbol text) := by
  obtain ⟨n, long⟩ := Nat.exists_eq_add_one_of_ne_zero (Nat.ne_of_gt inked.nonempty)
  unfold Grammar.symbol
  rw [long]
  exact guarded

instance delimited (d : Delimiter) (p : Parser α) : Spends (delimited d p) where
  fewer read := by
    obtain ⟨_, _, _, ahead, _⟩ := Tracks.of_delimited read
    rw [ahead, List.length_cons]
    exact Nat.lt_succ_self _

end Spends

variable {fit : List TokenTree → Prop} {free : Bool} {goes : α → Bool} {R : α → α → Prop}

namespace Onward

instance of_spends {p q : Parser α} [h : Tracks fit free R p q] [spends : Spends p] :
    Onward fit free goes R p q where
  tracks := h
  fewer _ read _ := spends.fewer read

instance (priority := 2000) of_closed {p q : Parser α} [h : Tracks fit false R p q] :
    Onward fit false goes R p q where
  tracks := h
  fewer isFree := nomatch isFree

/-- A value that does not go on. -/
theorem pure_of {a b : α} (stays : goes a = false) (h : R a b) :
    Onward fit free goes R (pure a) (pure b) where
  tracks := Tracks.pure_of h
  fewer _ read yes := by
    cases read
    rw [stays] at yes
    cases yes

instance last (a : α) : Repeats fit free Eq (pure (a, false)) (pure (a, false)) :=
  pure_of rfl rfl

instance lastAny (a b : α) : Repeats fit free (OnRound Any) (pure (a, false)) (pure (b, false)) :=
  pure_of rfl ⟨trivial, rfl⟩

instance nothing : Onward fit free Option.isSome Eq (pure (none : Option α)) (pure none) :=
  pure_of rfl rfl

instance refuse (q : Parser α) : Onward fit free goes R refuse q where
  tracks := inferInstance
  fewer _ read := by cases read

instance ite {condition : Prop} [Decidable condition] {p q p' q' : Parser α}
    [yes : Onward fit free goes R p q] [no : Onward fit free goes R p' q'] :
    Onward fit free goes R (if condition then p else p') (if condition then q else q') := by
  split
  · exact yes
  · exact no

/-- What is read hangs on what the tokens ahead are asked for. -/
theorem of_asked (look : List TokenTree → β) [Steady free look] {f g : Cursor → Parser α}
    (later : ∀ c d : Cursor, look d.rest = look c.rest → Onward fit free goes R (f c) (g d)) :
    Onward fit free goes R (get >>= f) (get >>= g) where
  tracks := Tracks.of_asked look fun c d same => (later c d same).tracks
  fewer {c _ _} := (later c c rfl).fewer

variable [Hereditary fit]

/-- What leads to a value. -/
theorem bind {S : β → β → Prop} [Std.Refl S] {p q : Parser β} {f g : β → Parser α}
    (early : Tracks fit free S p q) (later : ∀ a b, S a b → Onward fit free goes R (f a) (g b)) :
    Onward fit free goes R (p >>= f) (q >>= g) where
  tracks := early.bind fun a b h => (later a b h).tracks
  fewer isFree read yes := by
    obtain ⟨b, _, early', late⟩ := of_bind read
    obtain ⟨_, took⟩ := early.reads early'
    exact Nat.lt_of_lt_of_le ((later b b (Std.Refl.refl b)).fewer isFree late yes) took.length_le

/-- What starts with a token. -/
theorem after {S : β → β → Prop} [Std.Refl S] {p q : Parser β} {f g : β → Parser α}
    (early : Takes fit free S p q) (later : ∀ a b, S a b → Tracks fit free R (f a) (g b)) :
    Onward fit free goes R (p >>= f) (q >>= g) where
  tracks := early.tracks.bind later
  fewer isFree read _ := by
    obtain ⟨b, _, early', late⟩ := of_bind read
    obtain ⟨_, took⟩ := (later b b (Std.Refl.refl b)).reads late
    exact Nat.lt_of_le_of_lt took.length_le (early.fewer isFree early' rfl)

instance bindEq {p q : Parser β} {f g : β → Parser α} [early : Tracks fit free Eq p q]
    [later : ∀ a, Onward fit free goes R (f a) (g a)] :
    Onward fit free goes R (p >>= f) (q >>= g) :=
  bind early fun a _ same => same ▸ later a

instance (priority := low) bindAny {p q : Parser β} {f g : β → Parser α}
    [early : Tracks fit free Any p q] [later : ∀ a b, Onward fit free goes R (f a) (g b)] :
    Onward fit free goes R (p >>= f) (q >>= g) :=
  bind early fun a b _ => later a b

/-- A question, and then what follows either answer. -/
instance asked {told : β → Prop} [DecidablePred told] {p q : Parser β} {f f' g g' : Parser α}
    [early : Tracks fit free Eq p q] [yes : Onward fit free goes R f f']
    [no : Onward fit free goes R g g'] :
    Onward fit free goes R (p >>= fun b => if told b then f else g)
      (q >>= fun b => if told b then f' else g') :=
  bindEq

instance (priority := high) afterEq {p q : Parser β} {f g : β → Parser α}
    [early : Takes fit free Eq p q] [later : ∀ a, Tracks fit free R (f a) (g a)] :
    Onward fit free goes R (p >>= f) (q >>= g) :=
  after early fun a _ same => same ▸ later a

instance afterAny {p q : Parser β} {f g : β → Parser α} [early : Takes fit free Any p q]
    [later : ∀ a b, Tracks fit free R (f a) (g b)] : Onward fit free goes R (p >>= f) (q >>= g) :=
  after early fun a b _ => later a b

/-- A token whose value is not used, and then what follows it. -/
instance (priority := high) afterUnused {p q : Parser β} {f g : Parser α}
    [early : Takes fit free Any p q] [later : Tracks fit free R f g] :
    Onward fit free goes R (p >>= fun _ => f) (q >>= fun _ => g) :=
  afterAny

omit [Hereditary fit] in
/-- Where a symbol stood ahead, it was read. -/
theorem fewer_of_symbol? {text : String} [inked : Inked text] {c d : Cursor}
    (read : Grammar.symbol? text c = .ok (true, d)) : d.rest.length < c.rest.length := by
  obtain ⟨seen, _, looked, later⟩ := of_bind read
  obtain ⟨-, rfl⟩ := of_peek looked
  cases seen with
  | false => cases later
  | true =>
    obtain ⟨_, _, through, given⟩ := of_bind later
    cases given
    obtain ⟨n, long⟩ := Nat.exists_eq_add_one_of_ne_zero (Nat.ne_of_gt inked.nonempty)
    rw [long] at through
    exact (Spends.trees n).fewer through

/-- A token is read where a symbol stands ahead. -/
instance (priority := high) symbol? (text : String) [Inked text] {p q p' q' : Parser α}
    [yes : Tracks fit free R p q] [no : Onward fit free goes R p' q'] :
    Onward fit free goes R (symbol? text >>= fun seen => if seen = true then p else p')
      (symbol? text >>= fun seen => if seen = true then q else q') where
  tracks := Tracks.seq fun seen => by
    have other := no.tracks
    infer_instance
  fewer isFree read on := by
    obtain ⟨seen, mid, early, late⟩ := of_bind read
    cases seen with
    | true =>
      obtain ⟨_, took⟩ := yes.reads late
      exact Nat.lt_of_le_of_lt took.length_le (fewer_of_symbol? early)
    | false =>
      obtain ⟨_, took⟩ := (Tracks.symbol? text : Tracks fit free Eq _ _).reads early
      exact Nat.lt_of_lt_of_le (no.fewer isFree late on) took.length_le

/-- A round that is followed by another if a symbol stands behind it. -/
theorem ends_symbol? (text : String) [Inked text] {R : α × Bool → α × Bool → Prop}
    {f g : Bool → α} (h : ∀ seen, R (f seen, seen) (g seen, seen)) :
    Repeats fit free R (Grammar.symbol? text >>= fun seen => pure (f seen, seen))
      (Grammar.symbol? text >>= fun seen => pure (g seen, seen)) where
  tracks := Tracks.seq fun seen => Tracks.pure_of (h seen)
  fewer _ read yes := by
    obtain ⟨seen, _, early, late⟩ := of_bind read
    cases late
    obtain rfl : seen = true := yes
    exact fewer_of_symbol? early

instance ends_symbol?Eq (text : String) [Inked text] (f : Bool → α) :
    Repeats fit free Eq (Grammar.symbol? text >>= fun seen => pure (f seen, seen))
      (Grammar.symbol? text >>= fun seen => pure (f seen, seen)) :=
  ends_symbol? text fun _ => rfl

end Onward

namespace Tracks

variable [Hereditary fit]

/-! ## Loops -/

theorem roundsWithin [Std.Refl R] {f g : α → Parser (α × Bool)}
    (step : ∀ a b, R a b → Tracks fit free (OnRound R) (f a) (g b)) {n m : Nat} (le : n ≤ m)
    {a b : α} (h : R a b) :
    Tracks fit free R (roundsWithin f n a) (roundsWithin g m b) := by
  induction n generalizing m a b with
  | zero => exact refuse _
  | succ n ih =>
    obtain ⟨m, rfl⟩ : ∃ k, m = k + 1 := ⟨m - 1, by omega⟩
    refine (step a b h).bind fun (a', again) (b', again') ⟨related, same⟩ => ?_
    obtain rfl : again = again' := same
    cases again with
    | true => exact ih (by omega) related
    | false => exact pure_of related

/-- There are enough rounds for the tokens that are shared. -/
theorem carries_roundsWithin [Std.Refl R] {f g : α → Parser (α × Bool)}
    (step : ∀ a b, R a b → Repeats fit true (OnRound R) (f a) (g b)) {n m : Nat}
    {less more : List TokenTree} {a a' b : α} {c c' d : Cursor} (h : R a a')
    (sees : Sees less more c c') (read : Grammar.roundsWithin f n a c = .ok (b, d))
    (clear : Clear true less more d) (enough : c.rest.length < m + less.length) :
    ∃ b' d', Grammar.roundsWithin g m a' c' = .ok (b', d') ∧ R b b' ∧ Sees less more d d' := by
  have steady (a b : α) (related : R a b) : Tracks fit true (OnRound R) (f a) (g b) :=
    (step a b related).tracks
  induction n generalizing m a a' c c' with
  | zero => cases read
  | succ n ih =>
    obtain ⟨⟨next, again⟩, mid, one, later⟩ := of_bind read
    have refl := steady a a (Std.Refl.refl a)
    obtain ⟨taken, tookOne⟩ := refl.reads one
    have clearMid : Clear true less more mid := by
      cases again with
      | false =>
        cases later
        exact clear
      | true =>
        obtain ⟨_, took⟩ :=
          (roundsWithin steady (Nat.le_refl n) (Std.Refl.refl next)).reads later
        exact clear.before took
    obtain ⟨⟨next', again'⟩, mid', one', ⟨related, rfl⟩, sees⟩ :=
      (steady a a' h).carries sees one clearMid
    have within : less.length ≤ c.rest.length := by
      obtain ⟨own, ahead, -⟩ := clearMid.before tookOne
      rw [ahead, List.length_append]
      exact Nat.le_add_left _ _
    obtain ⟨m, rfl⟩ : ∃ k, m = k + 1 := ⟨m - 1, by omega⟩
    cases again with
    | false =>
      cases later
      exact ⟨next', mid', bind_ok one', related, sees⟩
    | true =>
      have fewer := (step a a' h).fewer rfl one rfl
      have left : mid.rest.length < m + less.length := by omega
      obtain ⟨b', d', later', related, sees⟩ := ih related sees later left
      exact ⟨b', d', (bind_ok one').trans later', related, sees⟩

theorem rounds [Std.Refl R] {f g : α → Parser (α × Bool)}
    (step : ∀ a b, R a b → Repeats fit free (OnRound R) (f a) (g b)) {a b : α} (h : R a b) :
    Tracks fit free R (rounds f a) (rounds g b) where
  reads {c _ _} read :=
    (roundsWithin (fun a b h => (step a b h).tracks) (Nat.le_refl (c.rest.length + 1)) h).reads read
  unbroken {c} sound broken :=
    (roundsWithin (fun a b h => (step a b h).tracks)
      (Nat.le_refl (c.rest.length + 1)) h).unbroken sound broken
  carries {less more c c' _ _} sees read clear := by
    have long := sees.length
    cases free with
    | true => exact carries_roundsWithin step h sees read clear (by omega)
    | false =>
      obtain ⟨rfl, rfl⟩ := clear.closed
      have same : c.rest.length + 1 ≤ c'.rest.length + 1 := by simp at long; omega
      exact (roundsWithin (fun a b h => (step a b h).tracks) same h).carries sees read clear

instance roundsEq {f g : α → Parser (α × Bool)} [step : ∀ a, Repeats fit free Eq (f a) (g a)]
    (a : α) : Tracks fit free Eq (Grammar.rounds f a) (Grammar.rounds g a) :=
  rounds (fun a _ same => same ▸ {
      tracks := (step a).tracks.weaken fun _ _ same => ⟨congrArg _ same, congrArg _ same⟩
      fewer := (step a).fewer }) rfl

/-- A loop whose rounds go the same way. -/
theorem repeated {f g : α → Parser (α × Bool)} {a : α}
    (step : ∀ a, Repeats fit free Eq (f a) (g a)) :
    Tracks fit free Eq (Grammar.rounds f a) (Grammar.rounds g a) :=
  roundsEq a

/-- A loop whose rounds go the same way, and then what follows from its value. -/
theorem loop {f g : β → Parser (β × Bool)} {h k : β → Parser α} {b : β}
    (step : ∀ b, Repeats fit free Eq (f b) (g b)) (later : ∀ b, Tracks fit free R (h b) (k b)) :
    Tracks fit free R (Grammar.rounds f b >>= h) (Grammar.rounds g b >>= k) :=
  seq later

instance pureRound (a b : α) (again : Bool) :
    Tracks fit free (OnRound Any) (pure (a, again)) (pure (b, again)) :=
  pure_of ⟨trivial, rfl⟩

instance roundsAny {f g : α → Parser (α × Bool)}
    [step : ∀ a b, Repeats fit free (OnRound Any) (f a) (g b)] (a b : α) :
    Tracks fit free Any (Grammar.rounds f a) (Grammar.rounds g b) :=
  rounds (fun a b _ => step a b) trivial

section

variable {p q : Parser β} {stop : Look} [Steady free stop]

instance untilStop [Takes fit free Eq p q] :
    Tracks fit free Eq (untilStop stop p) (untilStop stop q) := by
  unfold Grammar.untilStop
  infer_instance

instance untilStopAny [Takes fit free Any p q] :
    Tracks fit free Any (Grammar.untilStop stop p) (Grammar.untilStop stop q) := by
  unfold Grammar.untilStop
  infer_instance

instance separatedUntil (separator : String) [Inked separator] [Tracks fit free Eq p q] :
    Tracks fit free Eq (separatedUntil separator stop p) (separatedUntil separator stop q) := by
  unfold Grammar.separatedUntil
  infer_instance

instance separatedUntilAny (separator : String) [Inked separator] [Tracks fit free Any p q] :
    Tracks fit free Any (Grammar.separatedUntil separator stop p)
      (Grammar.separatedUntil separator stop q) := by
  unfold Grammar.separatedUntil
  infer_instance

instance separatedWhile (separator : String) [Inked separator] [Tracks fit free Any p q] :
    Tracks fit free Eq (separatedWhile separator stop p) (separatedWhile separator stop q) := by
  unfold Grammar.separatedWhile
  infer_instance

end

section

variable {p q : Parser β}

instance untilEnd [Takes fit free Eq p q] : Tracks fit free Eq (untilEnd p) (untilEnd q) := by
  unfold Grammar.untilEnd
  infer_instance

instance untilEndAny [Takes fit free Any p q] :
    Tracks fit free Any (Grammar.untilEnd p) (Grammar.untilEnd q) := by
  unfold Grammar.untilEnd
  infer_instance

instance separatedByCommas [Tracks fit free Eq p q] :
    Tracks fit free Eq (separatedByCommas p) (separatedByCommas q) := by
  unfold Grammar.separatedByCommas
  infer_instance

instance separatedByCommasAny [Tracks fit free Any p q] :
    Tracks fit free Any (Grammar.separatedByCommas p) (Grammar.separatedByCommas q) := by
  unfold Grammar.separatedByCommas
  infer_instance

end

end Tracks

end MacroExpansion.Grammar
