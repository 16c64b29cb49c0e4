import MacroExpansion.Grammar.Literal
import MacroExpansion.Proofs.Grammar.Tracks.Ahead
import MacroExpansion.Proofs.Grammar.Tracks.Repetition

/-!
# Literals that are read

A literal is told by one token, or by two if it has a sign. Only a literal that the grammar has no
value for breaks the reading off.
-/
namespace MacroExpansion.Grammar

open TokenTree

/-- Whether a `mut self` stands among the arguments of a function type. -/
def hasReceiver : List TokenTree → Bool
  | [] => false
  | t :: ts => Look.both (.keyword "mut") (.second (.keyword "self")) (t :: ts) || hasReceiver ts

/-- Tokens that do not break the reading off: the literals have values, and no function type takes
a `mut self`. -/
class Sound (fit : List TokenTree → Prop) : Prop extends Hereditary fit where
  valued : ∀ {spelling extent ts}, fit (.literal spelling extent :: ts) →
    (LiteralShape.ofSpelling? spelling.toList).isSome
  receiverless : ∀ {extent content extent' ts},
    fit (.ident "fn" extent :: .group .paren content extent' :: ts) → hasReceiver content = false

/-- The literal after a minus sign, and the number of tokens it takes with the sign. -/
def negatedAhead : List TokenTree → Option LiteralShape × Nat
  | .literal spelling _ :: _ => if isNegatable spelling then (some .negative, 2) else (none, 0)
  | _ => (none, 0)

/-- The literal that stands ahead and the number of its tokens; none if it has no value. -/
def literalAhead? : List TokenTree → Option (Option LiteralShape × Nat)
  | .literal spelling _ :: _ =>
    (LiteralShape.ofSpelling? spelling.toList).map fun shape => (some shape, 1)
  | .ident spelling _ :: _ =>
    some (if spelling = "true" ∨ spelling = "false" then (some .other, 1) else (none, 0))
  | .punct c _ _ :: rest => some (if c = '-' then negatedAhead rest else (none, 0))
  | _ => some (none, 0)

theorem literal?_eq (c : Cursor) :
    literal? c =
      match literalAhead? c.rest with
      | some (shape, n) => (trees n >>= fun _ => pure shape) c
      | none => .error .aborted := by
  have got : (get : Parser Cursor) c = .ok (c, c) := rfl
  rw [literal?, bind_ok got]
  obtain ⟨rest, displaced, last⟩ := c
  dsimp only
  match rest with
  | [] => rfl
  | .literal spelling _ :: _ =>
    unfold literalAhead?
    dsimp only
    cases LiteralShape.ofSpelling? spelling.toList <;> rfl
  | .group _ _ _ :: _ => rfl
  | .ident spelling place :: later =>
    by_cases yes : spelling = "true"
    · subst yes
      rfl
    by_cases no : spelling = "false"
    · subst no
      rfl
    · simp [literalAhead?, yes, no]
      rfl
  | .punct c joint place :: later =>
    by_cases sign : c = '-'
    · subst sign
      match later with
      | .literal spelling place' :: later =>
        change (if isNegatable spelling then _ else _ : Parser (Option LiteralShape)) _ = _
        cases negatable : isNegatable spelling with
        | true => simp [literalAhead?, negatedAhead, negatable]
        | false =>
          simp [literalAhead?, negatedAhead, negatable]
          rfl
      | [] | .ident _ _ :: _ | .punct _ _ _ :: _ | .group _ _ _ :: _ => rfl
    · simp [literalAhead?, sign]
      rfl

instance : Placeless negatedAhead where
  same ts := by
    match ts with
    | [] => rfl
    | t :: _ => cases t <;> rfl

instance : Placeless literalAhead? where
  same ts := by
    match ts with
    | [] | .literal _ _ :: _ | .ident _ _ :: _ | .group _ _ _ :: _ => rfl
    | .punct c joint extent :: ts =>
      rw [seenAll, List.map_cons, seen, literalAhead?, ← seenAll, placeless negatedAhead,
        literalAhead?]

instance {n : Nat} : Decided (n + 1) literalAhead? where
  same ts more ended _ := by
    match ts with
    | [] => exact absurd rfl ended.not_nil
    | .literal _ _ :: _ | .ident _ _ :: _ | .group _ _ _ :: _ => rfl
    | [.punct c joint extent] =>
      have other : c ≠ '-' := by
        rintro rfl
        exact Closed.single.mp ended
      simp [literalAhead?, other]
    | .punct c joint extent :: t :: ts => cases t <;> rfl

/-- The tokens of a literal are followed by others in an item. -/
theorem literalAhead?_drop {ts : List TokenTree} {shape : Option LiteralShape} {n : Nat}
    (ahead : literalAhead? ts = some (shape, n)) (ended : Closed ts) : Closed (ts.drop n) := by
  have behind {t : TokenTree} {rest : List TokenTree} (inner : ¬ ClosesItem t)
      (ended : Closed (t :: rest)) : Closed rest :=
    ended.of_append [t] fun empty => inner (Closed.single.mp (empty ▸ ended))
  unfold literalAhead? at ahead
  split at ahead
  next =>
    obtain ⟨_, _, same⟩ := Option.map_eq_some_iff.mp ahead
    cases same
    exact behind id ended
  next =>
    split at ahead <;> cases ahead
    · exact behind id ended
    · exact ended
  next rest =>
    unfold negatedAhead at ahead
    split at ahead
    next sign =>
      subst sign
      split at ahead
      next =>
        split at ahead <;> cases ahead
        · exact behind id (behind id ended)
        · exact ended
      next =>
        cases ahead
        exact ended
    next =>
      cases ahead
      exact ended
  next =>
    cases ahead
    exact ended

theorem rest_of_trees {n : Nat} {c d : Cursor} (read : trees n c = .ok ((), d)) :
    d.rest = c.rest.drop n := by
  induction n generalizing c with
  | zero =>
    cases read
    rfl
  | succ n ih =>
    obtain ⟨t, mid, first, later⟩ := of_bind read
    rw [ih later, of_tree first]
    rfl

instance : Timid literal? where
  stays {less c _ _} read ended := by
    obtain ⟨own, whole, ended⟩ := ended
    rw [literal?_eq] at read
    split at read
    next shape n ahead =>
      obtain ⟨_, _, through, given⟩ := of_bind read
      cases given
      rw [whole, decided literalAhead? ended ended.reaches] at ahead
      have left := literalAhead?_drop ahead ended
      have short : n ≤ own.length := by
        by_contra long
        rw [List.drop_of_length_le (Nat.le_of_not_le long)] at left
        exact left.not_nil rfl
      refine ⟨own.drop n, ?_, left⟩
      rw [rest_of_trees through, whole, List.drop_append_of_le_length short]
    next => cases read

namespace Tracks

variable {fit : List TokenTree → Prop} {free : Bool}

section

variable [sound : Sound fit]

instance literal? : Tracks fit free Eq literal? literal? where
  reads read := by
    rw [literal?_eq] at read
    split at read
    next shape n _ =>
      have through : Tracks (fun _ => True) true Eq (Grammar.trees n >>= fun _ => pure shape)
        (Grammar.trees n >>= fun _ => pure shape) := inferInstance
      exact through.reads read
    next => cases read
  unbroken fits broken := by
    rw [literal?_eq] at broken
    split at broken
    next shape n _ =>
      have through : Tracks (fun _ => True) true Eq (Grammar.trees n >>= fun _ => pure shape)
        (Grammar.trees n >>= fun _ => pure shape) := inferInstance
      exact through.unbroken trivial broken
    next absent =>
      unfold literalAhead? at absent
      split at absent
      next ahead =>
        rw [ahead] at fits
        have valued := sound.valued fits
        rw [Option.map_eq_none_iff.mp absent] at valued
        cases valued
      all_goals cases absent
  carries {less more c c' _ d} sees read clear := by
    rw [literal?_eq] at read ⊢
    split at read
    next shape n ahead =>
      have through : Tracks (fun _ => True) free Eq (Grammar.trees n >>= fun _ => pure shape)
        (Grammar.trees n >>= fun _ => pure shape) := inferInstance
      obtain ⟨taken, took⟩ := through.reads read
      have same : literalAhead? c'.rest = some (shape, n) := by
        rw [sees.steady (clear.before took) literalAhead?, ahead]
      rw [same]
      exact through.carries sees read clear
    next => cases read

instance literalAhead : Tracks fit free Eq literalAhead literalAhead := by
  unfold Grammar.literalAhead
  infer_instance

instance literal : Tracks fit free Eq literal literal := by
  unfold Grammar.literal
  infer_instance

instance text? : Tracks fit free Eq text? text? := by
  unfold Grammar.text?
  refine seq fun shape => ?_
  split
  · infer_instance
  · infer_instance

end

end Tracks

end MacroExpansion.Grammar
