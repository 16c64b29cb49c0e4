import MacroExpansion.Proofs.Expansion.Context

/-!
# Results and events of an attempt

An attempt adds its events to those before it, which have no part in what comes of it. So its result
and its events can each be told on their own, and both follow its steps: the result of two steps is
that of the second from what the first gives, and the events of the second follow those of the
first.
-/
namespace MacroExpansion.Eventful

variable {ε δ α β : Type}

/-- What comes of an attempt. -/
def result (attempt : Eventful ε α) : Attempt ε α :=
  attempt.outcome.1

/-- What happens in its course. -/
def reported (attempt : Eventful ε α) : List Event :=
  attempt.outcome.2

/-- The events before an attempt stay as they are, and neither its result nor its own events hang on
them. -/
def Additive (attempt : Eventful ε α) : Prop :=
  ∀ before, attempt.run.run before = (attempt.result, before ++ attempt.reported)

/-! ## Single steps -/

@[simp] theorem result_ofAttempt (attempt : Attempt ε α) : (ofAttempt attempt).result = attempt :=
  rfl

@[simp] theorem result_report (event : Event) : (report event : Eventful ε Unit).result = .ok () :=
  rfl

@[simp] theorem reported_report (event : Event) :
    (report event : Eventful ε Unit).reported = [event] := rfl

theorem additive_ofAttempt (attempt : Attempt ε α) : Additive (ofAttempt attempt) := by
  intro before
  change (attempt, before) = (attempt, before ++ [])
  rw [List.append_nil]

theorem additive_report (event : Event) : Additive (report event : Eventful ε Unit) :=
  fun _ => rfl

/-! ## Steps in a row -/

namespace Additive

variable {attempt : Eventful ε α} {next : α → Eventful ε β}

theorem run_bind (first : attempt.Additive) (later : ∀ a, (next a).Additive)
    (before : List Event) :
    (attempt >>= next).run.run before =
      match attempt.result with
      | .ok a => ((next a).result, before ++ (attempt.reported ++ (next a).reported))
      | .error cause => (.error cause, before ++ attempt.reported) := by
  rw [ExceptT.run_bind, StateT.run_bind, first before]
  cases attempt.result with
  | error cause => rfl
  | ok a =>
    have rest := later a (before ++ attempt.reported)
    rw [List.append_assoc] at rest
    exact rest

theorem result_bind (first : attempt.Additive) (later : ∀ a, (next a).Additive) :
    (attempt >>= next).result = attempt.result >>= fun a => (next a).result := by
  have ran := run_bind first later []
  rw [result, outcome, ran]
  cases attempt.result <;> rfl

theorem reported_bind (first : attempt.Additive) (later : ∀ a, (next a).Additive) :
    (attempt >>= next).reported =
      match attempt.result with
      | .ok a => attempt.reported ++ (next a).reported
      | .error _ => attempt.reported := by
  have ran := run_bind first later []
  rw [reported, outcome, ran]
  cases attempt.result <;> rfl

theorem bind (first : attempt.Additive) (later : ∀ a, (next a).Additive) :
    (attempt >>= next).Additive := by
  intro before
  rw [run_bind first later, result_bind first later, reported_bind first later]
  cases attempt.result <;> rfl

theorem mapError (first : attempt.Additive) (f : ε → δ) : (attempt.mapError f).Additive := by
  intro before
  have ran := first before
  change ((Attempt.mapError f (attempt.run.run before).1), (attempt.run.run before).2) = _
  rw [ran]
  rfl

end Additive

/-! ## Asking for nothing -/

/-- An additive attempt that asks for no definition. -/
structure Quiet (attempt : Eventful ε α) : Prop where
  additive : attempt.Additive
  asks : attempt.reported.filter Event.isLookup = []

theorem quiet_ofAttempt (attempt : Attempt ε α) : Quiet (ofAttempt attempt) :=
  ⟨additive_ofAttempt attempt, rfl⟩

theorem quiet_pure (a : α) : Quiet (pure a : Eventful ε α) :=
  quiet_ofAttempt (.ok a)

theorem quiet_report {event : Event} (other : event.isLookup = false) :
    Quiet (report event : Eventful ε Unit) where
  additive := additive_report event
  asks := by simp [other]

namespace Quiet

theorem bind {attempt : Eventful ε α} {next : α → Eventful ε β} (first : attempt.Quiet)
    (later : ∀ a, (next a).Quiet) : (attempt >>= next).Quiet where
  additive := first.additive.bind fun a => (later a).additive
  asks := by
    rw [first.additive.reported_bind fun a => (later a).additive]
    cases attempt.result with
    | error cause => exact first.asks
    | ok a => rw [List.filter_append, first.asks, (later a).asks, List.append_nil]

theorem mapError {attempt : Eventful ε α} (h : attempt.Quiet) (f : ε → δ) :
    (attempt.mapError f).Quiet where
  additive := h.additive.mapError f
  asks := h.asks

/-- The result of a step that is told from what another gives. -/
theorem result_bind {attempt : Eventful ε α} {next : α → Eventful ε β} (first : attempt.Quiet)
    (later : ∀ a, (next a).Quiet) :
    (attempt >>= next).result = attempt.result >>= fun a => (next a).result :=
  first.additive.result_bind fun a => (later a).additive

end Quiet

end MacroExpansion.Eventful
