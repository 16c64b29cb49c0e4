import MacroExpansion.Proofs.Grammar.Items
import MacroExpansion.Proofs.Token.Stretch

/-!
# What is read of a text

A parser that starts on a level of a text stays on it, and what it gives to the braces of that level
starts on a level as well. So what rules tell of all that they read of a text follows their
definitions.
-/
namespace MacroExpansion.Grammar

open TokenTree

variable {α β : Type} {root : List TokenTree}

/-- A level of some tokens goes on with what is ahead. -/
def Ahead (root : List TokenTree) (c : Cursor) : Prop :=
  ∃ front, TokenTree.Level root (front ++ c.rest)

theorem Ahead.took {c d : Cursor} {taken : List TokenTree} (ahead : Ahead root c)
    (took : Took taken c d) : Ahead root d := by
  obtain ⟨front, level⟩ := ahead
  rw [took.ahead, ← List.append_assoc] at level
  exact ⟨front ++ taken, level⟩

theorem Ahead.row_of {c : Cursor} {taken rest : List TokenTree} (ahead : Ahead root c)
    (tokens : c.rest = taken ++ rest) : Row root taken := by
  obtain ⟨front, level⟩ := ahead
  rw [tokens] at level
  exact ⟨front, rest, level⟩

theorem Ahead.row {c d : Cursor} {taken : List TokenTree} (ahead : Ahead root c)
    (took : Took taken c d) : Row root taken :=
  ahead.row_of took.ahead

/-- A part of a row is one. -/
theorem row_part {before taken after : List TokenTree}
    (row : Row root (before ++ (taken ++ after))) : Row root taken := by
  obtain ⟨front, back, level⟩ := row
  refine ⟨front ++ before, after ++ back, ?_⟩
  simpa only [List.append_assoc] using level

/-- Whatever `p` reads of a text is as told. -/
def Tells (root : List TokenTree) (p : Parser α) (told : α → Prop) : Prop :=
  ∀ c a d, Ahead root c → p c = .ok (a, d) → told a

namespace Tells

variable {told : α → Prop} {given : β → Prop}

theorem of_ensures {p : Parser α} (h : Ensures p told) : Tells root p told :=
  fun c a d _ read => h c a d read

theorem bind_of {p : Parser β} [moves : Moves p] {f : β → Parser α} (first : Tells root p given)
    (later : ∀ b, given b → Tells root (f b) told) : Tells root (p >>= f) told :=
  fun _ _ _ ahead read => by
    obtain ⟨b, _, early, late⟩ := of_bind read
    obtain ⟨_, took⟩ := moves.reads early
    exact later b (first _ _ _ ahead early) _ _ _ (ahead.took took) late

theorem bind {p : Parser β} [Moves p] {f : β → Parser α} (later : ∀ b, Tells root (f b) told) :
    Tells root (p >>= f) told := by
  have first : Tells root p fun _ => True := fun _ _ _ _ _ => trivial
  exact bind_of first fun b _ => later b

theorem get {f : Cursor → Parser α} (later : ∀ c, Tells root (f c) told) :
    Tells root (get >>= f) told :=
  fun c _ _ ahead read => by
    obtain ⟨_, _, got, given⟩ := of_bind read
    cases got
    exact later c _ _ _ ahead given

theorem map {p : Parser β} {make : β → α} (first : Tells root p given)
    (made : ∀ b, given b → told (make b)) : Tells root (p >>= fun b => pure (make b)) told :=
  fun _ _ _ ahead read => by
    obtain ⟨b, _, early, late⟩ := of_bind read
    cases late
    exact made b (first _ _ _ ahead early)

theorem ite {condition : Prop} [Decidable condition] {p q : Parser α} (yes : Tells root p told)
    (no : Tells root q told) : Tells root (if condition then p else q) told := by
  split
  · exact yes
  · exact no

/-- The content of braces is a level of its own. -/
theorem braces {p : Parser α} (h : Tells root p told) : Tells root (delimited .brace p) told :=
  fun c a d ⟨front, level⟩ read => by
    obtain ⟨content, extent, inner, ahead, read, -, -⟩ := Tracks.of_delimited read
    refine h _ _ _ ⟨[], ?_⟩ read
    rw [ahead] at level
    exact .braces level (List.mem_append_right front List.mem_cons_self)

theorem placed {p : Parser α} (h : Tells root p told) :
    Tells root (placed p) fun read => told read.1 := by
  refine .get fun _ => fun c read d ahead given => ?_
  obtain ⟨a, _, early, later⟩ := of_bind given
  obtain ⟨_, _, got, given⟩ := of_bind later
  cases got
  cases given
  exact h c _ _ ahead early

theorem roundsWithin {round : β → Parser (β × Bool)} [∀ b, Moves (round b)]
    (step : ∀ b, given b → Tells root (round b) fun next => given next.1) (n : Nat) :
    ∀ b, given b → Tells root (roundsWithin round n b) given := by
  induction n with
  | zero => exact fun _ _ => of_ensures .refuse
  | succ n ih =>
    intro b holds
    refine bind_of (step b holds) fun (next, again) later => ?_
    cases again with
    | true => exact ih next later
    | false => exact of_ensures (.pure later)

theorem rounds {round : β → Parser (β × Bool)} [∀ b, Moves (round b)]
    (step : ∀ b, given b → Tells root (round b) fun next => given next.1)
    {b : β} (holds : given b) :
    Tells root (rounds round b) given :=
  fun c _ _ ahead read => roundsWithin step (c.rest.length + 1) b holds c _ _ ahead read

theorem untilEnd {p : Parser β} [Moves p] (each : Tells root p given) :
    Tells root (untilEnd p) fun read => ∀ b ∈ read, given b := by
  have loop : Tells root
      (Grammar.rounds (fun read => do
        if ← peek Look.nothing then return (read, false)
        let b ← p
        return (b :: read, true)) []) fun read => ∀ b ∈ read, given b := by
    refine rounds (fun read holds => ?_) fun _ member => nomatch member
    refine bind fun seen => ite (of_ensures (.pure holds)) ?_
    exact bind_of each fun b told => of_ensures (.pure (List.forall_mem_cons.mpr ⟨told, holds⟩))
  intro c read d ahead h
  obtain ⟨_, _, early, given⟩ := of_bind h
  cases given
  exact fun b member => loop c _ _ ahead early b (List.mem_reverse.mp member)

end Tells

end MacroExpansion.Grammar
