import MacroExpansion.Proofs.Grammar.Tracks

/-!
# Looking ahead

What is read ahead is not read, so the end of the item has to be out of reach for it.
-/
namespace MacroExpansion.Grammar

open TokenTree

variable {α β : Type}

/-- What is ahead ends an item in front of `less`. -/
def EndedBefore (less : List TokenTree) (c : Cursor) : Prop :=
  ∃ own, c.rest = own ++ less ∧ Closed own

/-- The last token of an item is never read. -/
class Timid (p : Parser α) : Prop where
  stays : ∀ {less c a d}, p c = .ok (a, d) → EndedBefore less c → EndedBefore less d

namespace Timid

instance pure (a : α) : Timid (pure a) where
  stays h ended := by
    cases h
    exact ended

instance refuse : Timid (refuse : Parser α) where
  stays h := by cases h

instance refuse_bind (f : β → Parser α) : Timid (Grammar.refuse >>= f) where
  stays h := by cases h

instance peek (look : Look) : Timid (peek look) where
  stays h ended := by
    cases h
    exact ended

instance bind {p : Parser β} {f : β → Parser α} [first : Timid p] [later : ∀ b, Timid (f b)] :
    Timid (p >>= f) where
  stays h ended := by
    obtain ⟨b, _, early, late⟩ := of_bind h
    exact (later b).stays late (first.stays early ended)

instance ite {condition : Prop} [Decidable condition] {p q : Parser α} [yes : Timid p]
    [no : Timid q] : Timid (if condition then p else q) := by
  split
  · exact yes
  · exact no

/-- A step, and then what follows from it. -/
theorem seq {p : Parser β} {f : β → Parser α} [Timid p] (later : ∀ b, Timid (f b)) :
    Timid (p >>= f) :=
  bind

/-- A question, and then what follows either answer. -/
theorem ask {told : β → Prop} [DecidablePred told] {p : Parser β} {f g : Parser α} [Timid p]
    (yes : Timid f) (no : Timid g) : Timid (p >>= fun b => if told b then f else g) :=
  bind

instance ahead (p : Parser α) : Timid (ahead p) where
  stays h ended := by
    unfold Grammar.ahead at h
    split at h <;> cases h
    exact ended

end Timid

/-- The last token of an item is not read where a question is answered by yes. -/
class TimidIf (look : Look) (p : Parser α) : Prop where
  stays : ∀ {less c a d}, look c.rest = true → p c = .ok (a, d) → EndedBefore less c →
    EndedBefore less d

namespace TimidIf

variable {look : Look}

instance ofTimid {p : Parser α} [h : Timid p] : TimidIf look p where
  stays _ := h.stays

instance tree [needs : Needs look 2] [Decided 1 look] : TimidIf look tree where
  stays {less c t d} yes h ended := by
    obtain ⟨own, ahead, ended⟩ := ended
    rw [ahead, decided look ended ended.reaches] at yes
    have two : Reaches 2 own := needs.reaches own ended yes
    obtain ⟨u, later, rfl⟩ := List.exists_cons_of_ne_nil two.not_nil
    obtain ⟨-, left⟩ := List.cons.inj ((of_tree h).symm.trans ahead)
    refine ⟨later, left, ended.of_append [u] fun empty => ?_⟩
    rw [empty] at two
    exact two.2.not_nil (pastFirst_single u)

instance bind {p : Parser β} {f : β → Parser α} [first : TimidIf look p]
    [later : ∀ b, Timid (f b)] : TimidIf look (p >>= f) where
  stays yes h ended := by
    obtain ⟨b, _, early, late⟩ := of_bind h
    exact (later b).stays late (first.stays yes early ended)

variable [Needs look 2] [Decided 1 look]

instance word : TimidIf look word := by
  have given (t : TokenTree) : Timid (match t with
      | .ident spelling _ => pure spelling
      | _ => refuse : Parser String) := by
    split <;> infer_instance
  exact bind

instance trees_one : TimidIf look (trees 1) := by
  unfold trees trees
  infer_instance

end TimidIf

namespace Timid

instance asked {look : Look} {p q : Parser α} [yes : TimidIf look p] [no : Timid q] :
    Timid (Grammar.peek look >>= fun seen => if seen = true then p else q) where
  stays h ended := by
    obtain ⟨seen, _, looked, h⟩ := of_bind h
    obtain ⟨rfl, rfl⟩ := of_peek looked
    split at h
    next ahead => exact yes.stays ahead h ended
    next => exact no.stays h ended

instance keyword (spelling : String) : Timid (keyword spelling) := by
  unfold Grammar.keyword
  infer_instance

instance keyword? (spelling : String) : Timid (keyword? spelling) := by
  unfold Grammar.keyword?
  infer_instance

instance name : Timid name := by
  unfold Grammar.name
  infer_instance

instance delimited (p : Parser α) : Timid (delimited .paren p) where
  stays h ended := by
    obtain ⟨content, extent, _, ahead, _⟩ := Tracks.of_delimited h
    obtain ⟨own, whole, ended⟩ := ended
    obtain ⟨t, later, rfl⟩ := List.exists_cons_of_ne_nil ended.not_nil
    obtain ⟨same, left⟩ := List.cons.inj (ahead.symm.trans whole)
    refine ⟨later, left, ended.of_append [t] fun empty => ?_⟩
    rw [empty, ← same] at ended
    exact Closed.single.mp ended

/-- A symbol without a semicolon is not the last of an item. -/
theorem symbol {text : String} (inner : ';' ∉ text.toList) : Timid (symbol text) where
  stays {less c _ d} h ended := by
    have within (cs : List Char) (free : ';' ∉ cs) : ∀ {c d : Cursor},
        Look.punctuation cs c.rest = true → trees cs.length c = .ok ((), d) →
          EndedBefore less c → EndedBefore less d := by
      induction cs with
      | nil =>
        intro c d _ h ended
        cases h
        exact ended
      | cons e cs ih =>
        intro c d yes h ended
        obtain ⟨t, mid, read, h⟩ := of_bind h
        rw [List.mem_cons, not_or] at free
        have needs := needs_punctuation e cs (Ne.symm free.1)
        have decided : Decided 1 (Look.punctuation (e :: cs)) :=
          decided_punctuation fun within =>
            (List.mem_cons.mp (List.dropLast_subset _ within)).elim free.1 free.2
        refine ih free.2 ?_ h (TimidIf.tree.stays yes read ended)
        cases cs with
        | nil => rfl
        | cons f cs =>
          rw [punctuation_cons_cons, Bool.and_eq_true, of_tree read] at yes
          exact yes.2
    obtain ⟨yes, h⟩ := of_unless h
    exact within _ inner yes h ended

/-- A symbol without a semicolon is not the last of an item if it is there at all. -/
theorem symbol? {text : String} (inner : ';' ∉ text.toList) : Timid (symbol? text) where
  stays {less c _ d} h ended := by
    obtain ⟨seen, mid, looked, later⟩ := of_bind h
    obtain ⟨same, rfl⟩ := of_peek looked
    cases seen with
    | true =>
      obtain ⟨_, _, read, given⟩ := of_bind later
      cases given
      have whole : Grammar.symbol text mid = .ok ((), d) := by
        rw [Grammar.symbol, bind_ok looked]
        exact read
      exact (symbol inner).stays whole ended
    | false =>
      cases later
      exact ended

end Timid

/-- What is looked at ahead stands before the end of the item, or nothing else may follow. -/
class Previews (free : Bool) (p : Parser α) : Prop where
  stays : free = true → Timid p

instance (p : Parser α) : Previews false p where
  stays h := by cases h

instance (free : Bool) (p : Parser α) [h : Timid p] : Previews free p where
  stays _ := h

/-- In front of what may follow an item, the item goes on to its end. -/
theorem Clear.of_timid {free : Bool} {p : Parser α} [previews : Previews free p]
    {less more : List TokenTree} {c d : Cursor} {a : α} (clear : Clear free less more c)
    (read : p c = .ok (a, d)) : Clear free less more d := by
  obtain ⟨own, ahead, room, room'⟩ := clear
  have ends (isFree : free = true) (ended : Closed own) : Clear free less more d := by
    obtain ⟨left, ahead, ended⟩ := (previews.stays isFree).stays read ⟨own, ahead, ended⟩
    exact ⟨left, ahead, .inr ⟨isFree, ended⟩, .inr ⟨isFree, ended⟩⟩
  rcases room with rfl | ⟨isFree, ended⟩
  · rcases room' with rfl | ⟨isFree, ended⟩
    · exact .nothing _ _
    · exact ends isFree ended
  · exact ends isFree ended

namespace Tracks

variable {fit : List TokenTree → Prop} {free : Bool} {R : α → α → Prop}

instance ahead {p q : Parser α} [h : Tracks fit free R p q] [Previews free p] :
    Tracks fit free R (ahead p) (ahead q) where
  reads read := by
    unfold Grammar.ahead at read
    split at read <;> cases read
    exact ⟨_, .refl _⟩
  unbroken {c} sound broken := by
    unfold Grammar.ahead at broken
    split at broken <;> cases broken
    exact h.unbroken sound ‹_›
  carries {less more c c' a d} sees read clear := by
    unfold Grammar.ahead at read
    split at read
    next b e inner =>
      cases read
      obtain ⟨a', e', inner', related, _⟩ := h.carries sees inner (clear.of_timid inner)
      refine ⟨a', c', ?_, related, sees⟩
      rw [Grammar.ahead, inner']
    next => cases read

theorem preview {p q : Parser α} (timid : Timid p) (h : Tracks fit free R p q) :
    Tracks fit free R (Grammar.ahead p) (Grammar.ahead q) :=
  ahead

/-- Whether something can be read is told by the tokens of a group that is read as a whole. -/
instance optional? {p : Parser α} [unfit : Tracks (fun _ => True) false Eq p p] :
    Tracks fit false Eq (optional? p) (optional? p) where
  reads read := by
    unfold Grammar.optional? at read
    split at read
    next inner =>
      cases read
      exact unfit.reads inner
    next =>
      cases read
      exact ⟨_, .refl _⟩
    next => cases read
  unbroken _ broken := by
    unfold Grammar.optional? at broken
    split at broken
    · cases broken
    · cases broken
    next inner => exact unfit.unbroken trivial inner
  carries {less more c c' a d} sees read clear := by
    obtain ⟨rfl, rfl⟩ := clear.closed
    unfold Grammar.optional? at read ⊢
    split at read
    next b e inner =>
      cases read
      obtain ⟨_, e', inner', rfl, sees'⟩ := unfit.carries sees inner (.nothing _ _)
      exact ⟨_, e', by rw [inner'], rfl, sees'⟩
    next cause inner =>
      cases read
      cases inner' : p c' with
      | ok result =>
        -- what is read here would have been read there
        obtain ⟨_, _, found, _⟩ := unfit.carries sees.symm inner' (.nothing _ _)
        rw [inner] at found
        cases found
      | error failure =>
        cases failure with
        | error cause' => exact ⟨_, _, rfl, rfl, sees⟩
        | aborted => exact absurd inner' (unfit.unbroken trivial)
    next => cases read

end Tracks

end MacroExpansion.Grammar
