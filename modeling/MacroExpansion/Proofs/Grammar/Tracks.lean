import MacroExpansion.Proofs.Grammar.Look
import MacroExpansion.Proofs.Grammar.Progress

/-!
# Parsers that go the same way

What a parser does on some tokens it does on the same tokens in other places, and with other tokens
after them if what it leaves ends an item. It goes through the tokens one by one, and it is not
broken off by tokens that are fit for it. `Tracks` tells all this of a parser and one that is built
like it, but from rules that may nest deeper. It is found for a rule from the rules that it uses,
following its definition.
-/
namespace MacroExpansion.Grammar

open TokenTree

variable {α β : Type}

/-- `c` and `d` have the same tokens ahead, in other places, and behind them `less` and `more`. -/
structure Sees (less more : List TokenTree) (c d : Cursor) : Prop where
  ahead : ∃ own moved, c.rest = own ++ less ∧ d.rest = moved ++ more ∧
    seenAll moved = seenAll own
  displaced : d.displaced = c.displaced

/-- What is ahead stands in front of `less`, and may stand in front of `more` as well. -/
def Clear (free : Bool) (less more : List TokenTree) (c : Cursor) : Prop :=
  ∃ own, c.rest = own ++ less ∧ Room free less own ∧ Room free more own

/-- From one cursor to another these tokens were read. -/
structure Took (taken : List TokenTree) (c d : Cursor) : Prop where
  ahead : c.rest = taken ++ d.rest
  last : d.last = (taken.getLast?.map TokenTree.extent).or c.last

/-- What is told of tokens is told of the tokens after the first, and in a group. -/
class Hereditary (fit : List TokenTree → Prop) : Prop where
  tail : ∀ t ts, fit (t :: ts) → fit ts
  content : ∀ d content extent ts, fit (.group d content extent :: ts) → fit content

/-- `q` does on some tokens what `p` does on them, with other tokens behind them. `free` tells that
the tokens behind may differ if what is left ends an item; the values are then related by `R`. Nor
is `p` broken off on tokens that are fit. -/
class Tracks (fit : List TokenTree → Prop) (free : Bool) (R : α → α → Prop) (p q : Parser α) :
    Prop where
  reads : ∀ {c a d}, p c = .ok (a, d) → ∃ taken, Took taken c d
  unbroken : ∀ {c}, fit c.rest → p c ≠ .error .aborted
  carries : ∀ {less more c c' a d}, Sees less more c c' → p c = .ok (a, d) →
    Clear free less more d → ∃ a' d', q c' = .ok (a', d') ∧ R a a' ∧ Sees less more d d'

/-- Nothing is told of two values. -/
def Any (_ _ : α) : Prop := True

/-- A parser goes through the tokens one by one. -/
abbrev Moves (p : Parser α) : Prop :=
  Tracks (fun _ => False) false Any p p

/-- The first parts of two values are related. -/
def OnFirst (R : α → α → Prop) (x y : α × β) : Prop :=
  R x.1 y.1

/-- The values of two rounds are related, and neither or both of the rounds are the last. -/
def OnRound (R : α → α → Prop) (x y : α × Bool) : Prop :=
  R x.1 y.1 ∧ x.2 = y.2

instance reflEq : Std.Refl (@Eq α) where
  refl _ := rfl

instance : Std.Refl (@Any α) where
  refl _ := trivial

instance {R : α → α → Prop} [Std.Refl R] : Std.Refl (@OnFirst α β R) where
  refl x := Std.Refl.refl x.1

instance {R : α → α → Prop} [Std.Refl R] : Std.Refl (OnRound R) where
  refl x := ⟨Std.Refl.refl x.1, rfl⟩

/-- Two tokens that questions see alike. -/
def LooksAlike (t u : TokenTree) : Prop :=
  u.seen = t.seen

instance : Std.Refl LooksAlike where
  refl _ := rfl

namespace Took

variable {c d e : Cursor} {taken later : List TokenTree}

theorem refl (c : Cursor) : Took [] c c :=
  ⟨rfl, by simp⟩

theorem trans (first : Took taken c d) (second : Took later d e) : Took (taken ++ later) c e where
  ahead := by rw [first.ahead, second.ahead, List.append_assoc]
  last := by
    rw [second.last, first.last]
    rcases later.eq_nil_or_concat with rfl | ⟨front, t, rfl⟩
    · simp
    · simp

end Took

theorem Hereditary.suffix {fit : List TokenTree → Prop} [Hereditary fit] {taken ts : List TokenTree}
    (h : fit (taken ++ ts)) : fit ts := by
  induction taken with
  | nil => exact h
  | cons t taken ih => exact ih (tail _ _ h)

instance : Hereditary fun _ => True where
  tail _ _ _ := trivial
  content _ _ _ _ _ := trivial

/-- The next token is seen in its other place. -/
theorem Sees.cons {less more own : List TokenTree} {c d : Cursor} {t : TokenTree}
    (h : Sees less more c d) (ahead : c.rest = t :: (own ++ less)) :
    ∃ u later, d.rest = u :: (later ++ more) ∧ u.seen = t.seen ∧ seenAll later = seenAll own := by
  obtain ⟨front, moved, here, ahead', alike⟩ := h.ahead
  obtain rfl : front = t :: own := List.append_cancel_right (here.symm.trans ahead)
  obtain ⟨u, later, rfl, same, alike⟩ := of_seenAll_cons alike
  exact ⟨u, later, ahead', same, alike⟩

theorem Sees.symm {less more : List TokenTree} {c d : Cursor} (h : Sees less more c d) :
    Sees more less d c := by
  obtain ⟨own, moved, here, there, alike⟩ := h.ahead
  exact ⟨⟨moved, own, there, here, alike.symm⟩, h.displaced.symm⟩

/-- The same tokens are seen in other places. -/
theorem Sees.of_moved {ts us : List TokenTree} (alike : seenAll us = seenAll ts)
    (displaced : Bool) (last last' : Option Extent) :
    Sees [] [] ⟨ts, displaced, last⟩ ⟨us, displaced, last'⟩ :=
  ⟨⟨ts, us, (List.append_nil ts).symm, (List.append_nil us).symm, alike⟩, rfl⟩

/-- Where nothing more is seen, nothing is left if nothing was left. -/
theorem Sees.empty {c d : Cursor} (h : Sees [] [] c d) (empty : c.rest = []) : d.rest = [] := by
  obtain ⟨own, moved, here, ahead, alike⟩ := h.ahead
  obtain rfl : own = [] := by simpa using here.symm.trans empty
  rw [ahead, seenAll_eq_nil alike, List.append_nil]

theorem length_of_seenAll {ts us : List TokenTree} (same : seenAll us = seenAll ts) :
    us.length = ts.length := by
  have long := congrArg List.length same
  rwa [seenAll, seenAll, List.length_map, List.length_map] at long

theorem Sees.length {less more : List TokenTree} {c d : Cursor} (h : Sees less more c d) :
    d.rest.length + less.length = c.rest.length + more.length := by
  obtain ⟨own, moved, here, ahead, alike⟩ := h.ahead
  have same := length_of_seenAll alike
  rw [ahead, here, List.length_append, List.length_append]
  omega

namespace Clear

variable {free : Bool} {less more : List TokenTree} {c d : Cursor}

/-- Where there is nothing behind, nothing is in the way. -/
theorem nothing (free : Bool) (c : Cursor) : Clear free [] [] c :=
  ⟨c.rest, (List.append_nil _).symm, .inl rfl, .inl rfl⟩

/-- Where nothing was behind, something may be. -/
theorem ahead (room : Room free more c.rest) : Clear free [] more c :=
  ⟨c.rest, (List.append_nil _).symm, .inl rfl, room⟩

theorem before {taken : List TokenTree} (clear : Clear free less more d) (took : Took taken c d) :
    Clear free less more c := by
  obtain ⟨own, ahead, room, room'⟩ := clear
  refine ⟨taken ++ own, ?_, room.before taken, room'.before taken⟩
  rw [took.ahead, ahead, List.append_assoc]

/-- If nothing else may follow, nothing else does. -/
theorem closed (clear : Clear false less more d) : less = [] ∧ more = [] := by
  obtain ⟨own, _, room, room'⟩ := clear
  exact ⟨room.resolve_right fun h => Bool.false_ne_true h.1,
    room'.resolve_right fun h => Bool.false_ne_true h.1⟩

end Clear

/-- A question is answered in the other place as it is here. -/
theorem Sees.steady {β : Type} {free : Bool} {less more : List TokenTree} {c d : Cursor}
    (sees : Sees less more c d) (clear : Clear free less more c) (look : List TokenTree → β)
    [Steady free look] : look d.rest = look c.rest := by
  obtain ⟨own, moved, here, there, alike⟩ := sees.ahead
  obtain ⟨front, ahead, room, room'⟩ := clear
  obtain rfl : front = own := List.append_cancel_right (ahead.symm.trans here)
  have sameHere : look (front ++ less) = look front := Steady.same rfl room
  have sameThere : look (moved ++ more) = look front := Steady.same alike room'
  rw [here, there, sameHere, sameThere]

/-! ## Steps -/

variable {fit : List TokenTree → Prop} {free : Bool} {R : α → α → Prop}

/-- A step that gave a value is followed by the next. -/
theorem bind_ok {p : Parser α} {f : α → Parser β} {c d : Cursor} {a : α} (h : p c = .ok (a, d)) :
    (p >>= f) c = f a d := by
  change (p c >>= fun (a, d) => f a d) = f a d
  rw [h]
  rfl

theorem of_bind_aborted {p : Parser α} {f : α → Parser β} {c : Cursor}
    (h : (p >>= f) c = .error .aborted) :
    p c = .error .aborted ∨ ∃ a d, p c = .ok (a, d) ∧ f a d = .error .aborted := by
  change (p c >>= fun (a, d) => f a d) = .error .aborted at h
  cases read : p c with
  | error failure =>
    rw [read] at h
    cases h
    exact .inl rfl
  | ok result =>
    rw [read] at h
    exact .inr ⟨_, _, rfl, h⟩

namespace Tracks

/-- A step, and then what follows from related values. -/
theorem bind [Hereditary fit] {S : β → β → Prop} [Std.Refl S] {p q : Parser β}
    {f g : β → Parser α} (first : Tracks fit free S p q)
    (later : ∀ a b, S a b → Tracks fit free R (f a) (g b)) :
    Tracks fit free R (p >>= f) (q >>= g) where
  reads h := by
    obtain ⟨a, _, early, late⟩ := of_bind h
    obtain ⟨_, took⟩ := first.reads early
    obtain ⟨_, tookLater⟩ := (later a a (Std.Refl.refl a)).reads late
    exact ⟨_, took.trans tookLater⟩
  unbroken sound h := by
    rcases of_bind_aborted h with early | ⟨a, d, early, late⟩
    · exact first.unbroken sound early
    · obtain ⟨taken, took⟩ := first.reads early
      rw [took.ahead] at sound
      exact (later a a (Std.Refl.refl a)).unbroken (Hereditary.suffix sound) late
  carries sees h clear := by
    obtain ⟨a, mid, early, late⟩ := of_bind h
    obtain ⟨taken, took⟩ := (later a a (Std.Refl.refl a)).reads late
    obtain ⟨b, mid', early', related, sees⟩ := first.carries sees early (clear.before took)
    obtain ⟨a', d', late', related, sees⟩ := (later a b related).carries sees late clear
    exact ⟨a', d', (bind_ok early').trans late', related, sees⟩

theorem weaken {S : α → α → Prop} {p q : Parser α} (h : Tracks fit free R p q)
    (weaker : ∀ a b, R a b → S a b) : Tracks fit free S p q where
  reads := h.reads
  unbroken := h.unbroken
  carries sees read clear := by
    obtain ⟨a', d', read', related, sees⟩ := h.carries sees read clear
    exact ⟨a', d', read', weaker _ _ related, sees⟩

/-- Fewer tokens may be fit. -/
theorem narrow {less : List TokenTree → Prop} {p q : Parser α} (h : Tracks fit free R p q)
    (fits : ∀ ts, less ts → fit ts) : Tracks less free R p q where
  reads := h.reads
  unbroken sound := h.unbroken (fits _ sound)
  carries := h.carries

/-- A step to the same value, and then what follows from it. -/
theorem seq [Hereditary fit] {p q : Parser β} {f g : β → Parser α}
    [first : Tracks fit free Eq p q] (later : ∀ a, Tracks fit free R (f a) (g a)) :
    Tracks fit free R (p >>= f) (q >>= g) :=
  first.bind fun a _ same => same ▸ later a

instance bindEq [Hereditary fit] {p q : Parser β} {f g : β → Parser α}
    [first : Tracks fit free Eq p q] [later : ∀ a, Tracks fit free R (f a) (g a)] :
    Tracks fit free R (p >>= f) (q >>= g) :=
  seq later

instance (priority := low) bindAny [Hereditary fit] {p q : Parser β} {f g : β → Parser α}
    [first : Tracks fit free Any p q] [later : ∀ a b, Tracks fit free R (f a) (g b)] :
    Tracks fit free R (p >>= f) (q >>= g) :=
  first.bind fun a b _ => later a b

/-- A step whose value is not used, and then what follows it. -/
instance bindUnused [Hereditary fit] {p q : Parser β} {f g : Parser α}
    [first : Tracks fit free Any p q] [later : Tracks fit free R f g] :
    Tracks fit free R (p >>= fun _ => f) (q >>= fun _ => g) :=
  -- behind a binder that it does not use, what follows would be looked for twice
  first.bind fun _ _ _ => later

instance (priority := low) anyOfEq {p q : Parser α} [h : Tracks fit free Eq p q] :
    Tracks fit free Any p q :=
  h.weaken fun _ _ _ => trivial

theorem pure_of {a b : α} (h : R a b) : Tracks fit free R (pure a) (pure b) where
  reads h := by
    cases h
    exact ⟨_, .refl _⟩
  unbroken _ h := by cases h
  carries sees read _ := by
    cases read
    exact ⟨_, _, rfl, h, sees⟩

instance pureEq (a : α) : Tracks fit free Eq (pure a) (pure a) :=
  pure_of rfl

instance pureAny (a b : α) : Tracks fit free Any (pure a) (pure b) :=
  pure_of trivial

instance refuse (q : Parser α) : Tracks fit free R refuse q where
  reads h := by cases h
  unbroken _ h := by cases h
  carries _ read _ := by cases read

/-- One of two ways. -/
theorem fork {condition : Prop} [Decidable condition] {p q p' q' : Parser α}
    (yes : Tracks fit free R p q) (no : Tracks fit free R p' q') :
    Tracks fit free R (if condition then p else p') (if condition then q else q') := by
  split
  · exact yes
  · exact no

instance ite {condition : Prop} [Decidable condition] {p q p' q' : Parser α}
    [yes : Tracks fit free R p q] [no : Tracks fit free R p' q'] :
    Tracks fit free R (if condition then p else p') (if condition then q else q') :=
  fork yes no

/-- A question, and then what follows either answer. -/
theorem ask [Hereditary fit] {told : β → Prop} [DecidablePred told] {p q : Parser β}
    {f f' g g' : Parser α} [first : Tracks fit free Eq p q] (yes : Tracks fit free R f f')
    (no : Tracks fit free R g g') :
    Tracks fit free R (p >>= fun b => if told b then f else g)
      (q >>= fun b => if told b then f' else g') :=
  seq fun _ => fork yes no

instance asked [Hereditary fit] {told : β → Prop} [DecidablePred told] {p q : Parser β}
    {f f' g g' : Parser α} [first : Tracks fit free Eq p q] [yes : Tracks fit free R f f']
    [no : Tracks fit free R g g'] :
    Tracks fit free R (p >>= fun b => if told b then f else g)
      (q >>= fun b => if told b then f' else g') :=
  ask yes no

/-- A step that may be left out, and then what follows it. -/
instance (priority := high) skip [Hereditary fit] {condition : Prop} [Decidable condition]
    {p q : Parser β} {f g : Parser α} [first : Tracks fit free Any p q]
    [later : Tracks fit free R f g] :
    Tracks fit free R (if condition then p >>= fun _ => f else f)
      (if condition then q >>= fun _ => g else g) := by
  split
  · exact bindUnused
  · exact later

instance (priority := high) except [Hereditary fit] {condition : Prop} [Decidable condition]
    {p q : Parser β} {f g : Parser α} [first : Tracks fit free Any p q]
    [later : Tracks fit free R f g] :
    Tracks fit free R (if condition then f else p >>= fun _ => f)
      (if condition then g else q >>= fun _ => g) := by
  split
  · exact later
  · exact bindUnused

/-- One of two steps, and then what follows from its value. -/
instance (priority := high) either [Hereditary fit] {condition : Prop} [Decidable condition]
    {p q p' q' : Parser β} {f g : β → Parser α} [first : Tracks fit free Eq p q]
    [other : Tracks fit free Eq p' q'] [later : ∀ b, Tracks fit free R (f b) (g b)] :
    Tracks fit free R (if condition then p >>= f else p' >>= f)
      (if condition then q >>= g else q' >>= g) := by
  split <;> exact bindEq

/-- What the tokens ahead are asked for. -/
theorem asking (look : List TokenTree → α) [Steady free look] :
    Tracks fit free Eq (do return look (← get).rest) (do return look (← get).rest) where
  reads h := by
    cases h
    exact ⟨_, .refl _⟩
  unbroken _ h := by cases h
  carries {_ _ c c' _ _} sees read clear := by
    cases read
    exact ⟨look c'.rest, c', rfl, (sees.steady clear look).symm, sees⟩

instance peek (look : Look) [Steady free look] : Tracks fit free Eq (peek look) (peek look) :=
  asking look

/-- What is read hangs on what the tokens ahead are asked for. -/
theorem of_asked (look : List TokenTree → β) [Steady free look] {f g : Cursor → Parser α}
    (later : ∀ c d : Cursor, look d.rest = look c.rest → Tracks fit free R (f c) (g d)) :
    Tracks fit free R (get >>= f) (get >>= g) where
  reads {c _ _} h := (later c c rfl).reads h
  unbroken {c} sound h := (later c c rfl).unbroken sound h
  carries {_ _ c c' _ _} sees h clear := by
    obtain ⟨taken, took⟩ := (later c c rfl).reads h
    have same : look c'.rest = look c.rest := sees.steady (clear.before took) look
    exact (later c c' same).carries sees h clear

/-- Of a cursor that is kept only the note counts. -/
theorem of_noted {f g : Cursor → Parser α}
    (later : ∀ displaced rest rest' last last',
      Tracks fit free R (f ⟨rest, displaced, last⟩) (g ⟨rest', displaced, last'⟩)) :
    Tracks fit free R (get >>= f) (get >>= g) where
  reads {c _ _} h := (later c.displaced c.rest c.rest c.last c.last).reads h
  unbroken {c} sound h := (later c.displaced c.rest c.rest c.last c.last).unbroken sound h
  carries {_ _ c c' _ _} sees h clear := by
    obtain ⟨rest', displaced', last'⟩ := c'
    obtain rfl : displaced' = c.displaced := sees.displaced
    exact (later c.displaced c.rest rest' c.last last').carries sees h clear

instance noted {f g : Cursor → Parser α}
    [later : ∀ displaced rest rest' last last',
      Tracks fit free R (f ⟨rest, displaced, last⟩) (g ⟨rest', displaced, last'⟩)] :
    Tracks fit free R (get >>= f) (get >>= g) :=
  of_noted later

instance note (displaced : Bool) : Tracks fit free Eq
    (modify fun c => { c with displaced } : Parser Unit)
    (modify fun c => { c with displaced }) where
  reads h := by
    cases h
    exact ⟨[], rfl, rfl⟩
  unbroken _ h := by cases h
  carries sees read _ := by
    cases read
    exact ⟨_, _, rfl, rfl, sees.ahead, rfl⟩

/-! ## Tokens -/

theorem took_tree {c d : Cursor} {t : TokenTree} (read : Grammar.tree c = .ok (t, d)) :
    Took [t] c d := by
  refine ⟨of_tree read, ?_⟩
  unfold Grammar.tree at read
  split at read <;> cases read
  rfl

/-- A token is read in its other place, whatever follows it. -/
theorem carries_tree {less more own : List TokenTree} {c c' d : Cursor} {t : TokenTree}
    (sees : Sees less more c c') (read : Grammar.tree c = .ok (t, d))
    (left : d.rest = own ++ less) :
    ∃ u d', Grammar.tree c' = .ok (u, d') ∧ LooksAlike t u ∧ Sees less more d d' := by
  obtain ⟨u, later, ahead, same, alike⟩ := sees.cons (left ▸ of_tree read)
  have displaced : d.displaced = c.displaced := by
    unfold Grammar.tree at read
    split at read <;> cases read
    rfl
  refine ⟨u, ⟨later ++ more, c'.displaced, some u.extent⟩, ?_, same,
    ⟨own, later, left, rfl, alike⟩, sees.displaced.trans displaced.symm⟩
  rw [Grammar.tree, ahead]

theorem tree : Tracks fit free LooksAlike tree tree where
  reads h := ⟨_, took_tree h⟩
  unbroken {c} _ h := by
    unfold Grammar.tree at h
    split at h <;> cases h
  carries sees read clear := by
    obtain ⟨own, left, -⟩ := clear
    exact carries_tree sees read left

instance treeAny : Tracks fit free Any Grammar.tree Grammar.tree :=
  tree.weaken fun _ _ _ => trivial

instance word [Hereditary fit] : Tracks fit free Eq word word := by
  refine tree.bind fun t u same => ?_
  cases t with
  | ident spelling extent =>
    cases u with
    | ident _ _ =>
      cases same
      exact pureEq spelling
    | _ => cases same
  | _ => exact refuse _

instance trees [Hereditary fit] (n : Nat) : Tracks fit free Eq (trees n) (trees n) := by
  induction n with
  | zero => exact pureEq ()
  | succ n ih =>
    unfold Grammar.trees
    infer_instance

variable [Hereditary fit]

instance keyword (spelling : String) :
    Tracks fit free Eq (keyword spelling) (keyword spelling) := by
  unfold Grammar.keyword
  infer_instance

instance keyword? (spelling : String) :
    Tracks fit free Eq (keyword? spelling) (keyword? spelling) := by
  unfold Grammar.keyword?
  infer_instance

instance symbol (text : String) [Inked text] : Tracks fit free Eq (symbol text) (symbol text) := by
  unfold Grammar.symbol
  infer_instance

instance symbol? (text : String) [Inked text] :
    Tracks fit free Eq (symbol? text) (symbol? text) := by
  unfold Grammar.symbol?
  infer_instance

instance name : Tracks fit free Eq name name := by
  unfold Grammar.name
  infer_instance

instance lifetime : Tracks fit free Eq lifetime lifetime := by
  unfold Grammar.lifetime
  infer_instance

instance lifetime? : Tracks fit free Eq lifetime? lifetime? := by
  unfold Grammar.lifetime?
  infer_instance

instance displace : Tracks fit free Eq displace displace :=
  note true

/-! ## Groups -/

/-- What the content of a group gives, if it is used up. -/
def usedUp (read : Attempt SyntaxError (α × Cursor)) : Attempt SyntaxError α :=
  match read with
  | .ok (a, ⟨[], _, _⟩) => .ok a
  | .ok _ => Attempt.fail .unexpected
  | .error failure => .error failure

theorem delimited_group (d : Delimiter) (p : Parser α) {c : Cursor} {content : List TokenTree}
    {extent : Extent} {rest : List TokenTree} (ahead : c.rest = .group d content extent :: rest) :
    Grammar.delimited d p c =
      (usedUp (p ⟨content, false, none⟩)).map fun a => (a, ⟨rest, c.displaced, some extent⟩) := by
  have seen : Grammar.peek (Look.group d) c = .ok (true, c) := by
    simp [Grammar.peek, ahead, Look.group]
  have read : Grammar.tree c =
      .ok (.group d content extent, ⟨rest, c.displaced, some extent⟩) := by
    simp [Grammar.tree, ahead, TokenTree.extent]
  rw [Grammar.delimited, bind_ok seen]
  dsimp only
  rw [if_pos rfl, bind_ok read]
  dsimp only
  rcases p ⟨content, false, none⟩ with failure | ⟨a, ⟨rest', _, _⟩⟩
  · rfl
  · cases rest' <;> rfl

theorem delimited_other (d : Delimiter) (p : Parser α) {c : Cursor}
    (other : Look.group d c.rest = false) :
    Grammar.delimited d p c = Attempt.fail .unexpected := by
  have seen : Grammar.peek (Look.group d) c = .ok (false, c) := by rw [Grammar.peek, other]
  rw [Grammar.delimited, bind_ok seen]
  rfl

theorem group_ahead {d : Delimiter} {ts : List TokenTree} (ahead : Look.group d ts = true) :
    ∃ content extent rest, ts = .group d content extent :: rest := by
  unfold Look.group at ahead
  split at ahead
  · obtain rfl := beq_iff_eq.mp ahead
    exact ⟨_, _, _, rfl⟩
  · cases ahead

theorem of_usedUp {read : Attempt SyntaxError (α × Cursor)} {a : α} (h : usedUp read = .ok a) :
    ∃ d, read = .ok (a, d) ∧ d.rest = [] := by
  unfold usedUp at h
  split at h <;> cases h
  exact ⟨_, rfl, rfl⟩

theorem of_delimited {d : Delimiter} {p : Parser α} {c e : Cursor} {a : α}
    (h : Grammar.delimited d p c = .ok (a, e)) :
    ∃ content extent inner, c.rest = .group d content extent :: e.rest ∧
      p ⟨content, false, none⟩ = .ok (a, inner) ∧ inner.rest = [] ∧
      e = ⟨e.rest, c.displaced, some extent⟩ := by
  cases ahead : Look.group d c.rest with
  | false =>
    rw [delimited_other d p ahead] at h
    cases h
  | true =>
    obtain ⟨content, extent, rest, ahead⟩ := group_ahead ahead
    rw [delimited_group d p ahead] at h
    obtain ⟨b, read, same⟩ := Attempt.of_map_ok h
    cases same
    obtain ⟨inner, read, empty⟩ := of_usedUp read
    exact ⟨content, extent, inner, ahead, read, empty, rfl⟩

/-- What breaks off does so in the content of a group. -/
theorem of_delimited_aborted {d : Delimiter} {p : Parser α} {c : Cursor}
    (h : Grammar.delimited d p c = .error .aborted) :
    ∃ content extent rest, c.rest = .group d content extent :: rest ∧
      p ⟨content, false, none⟩ = .error .aborted := by
  cases ahead : Look.group d c.rest with
  | false =>
    rw [delimited_other d p ahead] at h
    cases h
  | true =>
    obtain ⟨content, extent, rest, ahead⟩ := group_ahead ahead
    rw [delimited_group d p ahead] at h
    refine ⟨content, extent, rest, ahead, ?_⟩
    unfold usedUp at h
    split at h <;> cases h
    assumption

omit [Hereditary fit] in
/-- A group is read in its other place, whatever follows it. -/
theorem carries_delimited {d : Delimiter} {p q : Parser α} (inner : Tracks fit false R p q)
    {less more own : List TokenTree} {c c' e : Cursor} {a : α} (sees : Sees less more c c')
    (read : Grammar.delimited d p c = .ok (a, e)) (left : e.rest = own ++ less) :
    ∃ a' e', Grammar.delimited d q c' = .ok (a', e') ∧ R a a' ∧ Sees less more e e' := by
  obtain ⟨content, extent, last, ahead, read, empty, same⟩ := of_delimited read
  obtain ⟨u, later, ahead', group, alike⟩ := sees.cons (left ▸ ahead)
  obtain ⟨content', extent', rfl, inside⟩ := of_seen_group group
  obtain ⟨a', ⟨rest', displaced', last'⟩, read', related, sees'⟩ :=
    inner.carries (.of_moved (seenAll_eq inside) false none none) read (.nothing _ _)
  obtain rfl : rest' = [] := sees'.empty empty
  refine ⟨a', ⟨later ++ more, c'.displaced, some extent'⟩, ?_, related,
    ⟨own, later, left, rfl, alike⟩, ?_⟩
  · rw [delimited_group d q ahead', read']
    rfl
  · rw [same]
    exact sees.displaced

/-- The content of a group is told by its tokens alone. -/
instance delimited {d : Delimiter} {p q : Parser α} [inner : Tracks fit false R p q] :
    Tracks fit free R (delimited d p) (delimited d q) where
  reads h := by
    obtain ⟨content, extent, _, ahead, _, _, same⟩ := of_delimited h
    exact ⟨[_], ahead, by rw [same]; rfl⟩
  unbroken {c} sound h := by
    obtain ⟨content, extent, rest, ahead, broken⟩ := of_delimited_aborted h
    rw [ahead] at sound
    exact inner.unbroken (Hereditary.content _ _ _ _ sound) broken
  carries sees h clear := by
    obtain ⟨own, left, -⟩ := clear
    exact carries_delimited inner sees h left

theorem inside {d : Delimiter} {p q : Parser α} (inner : Tracks fit false R p q) :
    Tracks fit free R (Grammar.delimited d p) (Grammar.delimited d q) :=
  delimited

/-- The delimiters are the same, and the contents but for their places. -/
def AlikeGroups (x y : Delimiter × List TokenTree × Extent) : Prop :=
  y.1 = x.1 ∧ unplacedAll y.2.1 = unplacedAll x.2.1

instance : Std.Refl AlikeGroups where
  refl _ := ⟨rfl, rfl⟩

theorem anyGroup : Tracks fit free AlikeGroups anyGroup anyGroup := by
  refine tree.bind fun t u same => ?_
  cases t with
  | group d content extent =>
    obtain ⟨content', extent', rfl, inside⟩ := of_seen_group same
    exact pure_of ⟨rfl, inside⟩
  | _ => exact refuse _

/-- What is read with its stretch is read. -/
instance placed {p q : Parser β} {S : β → β → Prop} [Std.Refl S] [h : Tracks fit free S p q] :
    Tracks fit free (OnFirst S) (placed p) (placed q) :=
  of_noted fun _ _ _ _ _ => h.bind fun _ _ related => of_noted fun _ _ _ _ _ => pure_of related

end Tracks

end MacroExpansion.Grammar
