/-!
# Attempts

An attempt gives a value or an error, which its caller may handle. It may also be broken off for
good: the grammar has no value for some literals, and where one stands in place of a value the
whole request is given up. So it would be where a text is cut at a place that it does not have.
-/
namespace MacroExpansion

/-- How an attempt fails. -/
inductive Failure (ε : Type) where
  | error (cause : ε)
  /-- Broken off, which no caller handles. -/
  | aborted
  deriving DecidableEq, Repr

abbrev Attempt (ε α : Type) := Except (Failure ε) α

namespace Attempt

def fail (cause : ε) : Attempt ε α :=
  .error (.error cause)

/-- A value that may be missing for a reason. -/
def ofOption (cause : ε) : Option α → Attempt ε α
  | some a => .ok a
  | none => fail cause

/-- A value without which the attempt is broken off. -/
def require : Option α → Attempt ε α
  | some a => .ok a
  | none => .error .aborted

/-- The same attempt with its error put in other terms. -/
def mapError (f : ε → δ) : Attempt ε α → Attempt δ α
  | .ok a => .ok a
  | .error (.error cause) => .error (.error (f cause))
  | .error .aborted => .error .aborted

@[simp] theorem mapError_ok (f : ε → δ) (a : α) :
    mapError f (.ok a : Attempt ε α) = .ok a := rfl

@[simp] theorem mapError_fail (f : ε → δ) (cause : ε) :
    mapError f (fail cause : Attempt ε α) = fail (f cause) := rfl

/-- Two steps give a value if the first gives one from which the second gives it. -/
theorem of_bind_ok {attempt : Except ε α} {next : α → Except ε β} {b : β}
    (h : attempt >>= next = .ok b) : ∃ a, attempt = .ok a ∧ next a = .ok b := by
  cases attempt with
  | error failure => cases h
  | ok a => exact ⟨a, rfl, h⟩

theorem of_map_ok {attempt : Except ε α} {f : α → β} {b : β} (h : attempt.map f = .ok b) :
    ∃ a, attempt = .ok a ∧ f a = b := by
  cases attempt with
  | error failure => cases h
  | ok a =>
    cases h
    exact ⟨a, rfl, rfl⟩

theorem of_mapError_ok {attempt : Attempt ε α} {f : ε → δ} {a : α}
    (h : attempt.mapError f = .ok a) : attempt = .ok a := by
  rcases attempt with (cause | _) | b
  · cases h
  · cases h
  · cases h
    rfl

theorem of_toOption {attempt : Except ε α} {a : α} (h : attempt.toOption = some a) :
    attempt = .ok a := by
  cases attempt with
  | error failure => cases h
  | ok b =>
    cases h
    rfl

end Attempt

end MacroExpansion
