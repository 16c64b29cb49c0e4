import MacroExpansion.Proofs.Expansion.Attribution

/-!
# Which errors an expansion ends with

Two errors stand apart: that the template cannot be cut out of its definition, and that nothing can
be declared in the context. Every other error comes from one of the steps before. An expansion ends
with one of the two only if the step of that name goes wrong.
-/
namespace MacroExpansion

namespace Attempt

variable {ε δ α β : Type}

/-- Every error that it may end with is one of these. -/
def FailsWith (p : ε → Prop) (attempt : Attempt ε α) : Prop :=
  ∀ cause, attempt = fail cause → p cause

variable {p : ε → Prop}

theorem failsWith_ok (a : α) : FailsWith p (.ok a : Attempt ε α) :=
  fun _ same => by cases same

theorem failsWith_fail {cause : ε} (h : p cause) : FailsWith p (fail cause : Attempt ε α) := by
  intro other same
  cases same
  exact h

theorem failsWith_mapError {f : δ → ε} (h : ∀ cause, p (f cause)) (attempt : Attempt δ α) :
    FailsWith p (mapError f attempt) := by
  rcases attempt with (cause | _) | a
  · exact failsWith_fail (h cause)
  · exact fun _ same => by cases same
  · exact failsWith_ok a

theorem failsWith_ofOption {cause : ε} {found : Option α} (h : found = none → p cause) :
    FailsWith p (ofOption cause found) := by
  cases found with
  | none => exact failsWith_fail (h rfl)
  | some a => exact failsWith_ok a

theorem FailsWith.bind {attempt : Attempt ε α} {next : α → Attempt ε β}
    (first : FailsWith p attempt) (later : ∀ a, attempt = .ok a → FailsWith p (next a)) :
    FailsWith p (attempt >>= next) := by
  intro cause same
  cases found : attempt with
  | ok a =>
    rw [found] at same
    exact later a found cause same
  | error failure =>
    rw [found] at same
    cases same
    exact first cause found

theorem FailsWith.map {attempt : Attempt ε α} (h : FailsWith p attempt) (f : α → β) :
    FailsWith p (attempt.map f) := by
  intro cause same
  cases found : attempt with
  | ok a =>
    rw [found] at same
    cases same
  | error failure =>
    rw [found] at same
    cases same
    exact h cause found

end Attempt

open Attempt

/-- Every error but the two that stand apart. -/
def ExpandError.IsEarly : ExpandError → Prop
  | templateExtractFailed | contextBindFailed => False
  | _ => True

section

variable {p : ExpandError → Prop} (early : ∀ cause : ExpandError, cause.IsEarly → p cause)
include early

theorem failsWith_shapeOf (definition : MacroDefinition) : FailsWith p (shapeOf definition) := by
  have malformed := fun cause => early (.malformedDefinition cause) trivial
  refine FailsWith.bind (failsWith_mapError malformed _) fun rules _ => ?_
  split
  · exact failsWith_ok _
  · exact failsWith_fail (early _ trivial)

theorem failsWith_pasted {definition : MacroDefinition}
    (template : ∀ shape, shapeOf definition = .ok shape →
      extractTemplate definition.source.toList shape = none → p .templateExtractFailed)
    (invocation : MacroInvocation) : FailsWith p (pasted definition invocation).result := by
  unfold pasted
  rw [(Eventful.quiet_ofAttempt _).result_bind fun _ =>
    (quiet_argumentsOf invocation).bind fun _ =>
      (Eventful.quiet_ofAttempt _).bind fun _ => Eventful.quiet_ofAttempt _]
  refine FailsWith.bind (failsWith_shapeOf early definition) fun shape accepted => ?_
  rw [(quiet_argumentsOf invocation).result_bind fun _ =>
    (Eventful.quiet_ofAttempt _).bind fun _ => Eventful.quiet_ofAttempt _]
  have unread := fun cause => early (.argumentParseFailed cause) trivial
  refine FailsWith.bind (failsWith_mapError unread _) fun fragments _ => ?_
  rw [(Eventful.quiet_ofAttempt _).result_bind fun _ => Eventful.quiet_ofAttempt _]
  refine FailsWith.bind (failsWith_ofOption (template shape accepted)) fun text _ => ?_
  rw [Eventful.result_ofAttempt]
  split
  · exact failsWith_fail (early _ trivial)
  · exact failsWith_ok _

theorem failsWith_resynthesize (text : List Char) (invocation : Span) :
    FailsWith p (resynthesize text invocation).result := by
  rw [result_resynthesize_eq]
  have unparsed := fun cause => early (.resynthesisFailed cause) trivial
  refine FailsWith.bind (failsWith_mapError unparsed _) fun u _ => ?_
  unfold someElements
  split
  · exact failsWith_fail (early _ trivial)
  · exact failsWith_ok _

theorem failsWith_element (invocation : MacroInvocation) :
    FailsWith p (LazyStatic.element invocation).result := by
  rw [LazyStatic.result_element_eq]
  have undeclared := fun cause => early (.builtinFailed cause) trivial
  refine FailsWith.bind (failsWith_mapError undeclared _) fun text _ => ?_
  have unparsed := fun cause => early (.builtinFailed (.reparse cause)) trivial
  refine FailsWith.bind (failsWith_mapError unparsed _) fun u _ => ?_
  exact failsWith_ofOption fun _ => early _ trivial

omit early in
theorem failsWith_bindAll {context : InvocationContext}
    (nowhere : context.scope? = none → p .contextBindFailed) (elements : List Element) :
    FailsWith p (bindAll elements context) := by
  cases named : context.scope? with
  | none => exact failsWith_ofOption fun _ => nowhere named
  | some scope =>
    rw [bindAll_of_scope named]
    exact failsWith_ok _

/-- An expansion fails early, by a template that cannot be cut out or for want of a scope. -/
theorem failsWith_expandMacro {lookup : Ident → Option MacroDefinition}
    {invocation : MacroInvocation}
    (template : ∀ definition shape, lookup invocation.name = some definition →
      shapeOf definition = .ok shape →
      extractTemplate definition.source.toList shape = none → p .templateExtractFailed)
    (nowhere : invocation.context.scope? = none → p .contextBindFailed) :
    FailsWith p (expandMacro lookup invocation).result := by
  by_cases named : invocation.name = LazyStatic.invocationName
  · rw [expandMacro_of_static named, result_expandStatic]
    exact (failsWith_element early invocation).bind fun element _ =>
      (failsWith_bindAll nowhere [element]).map _
  · rw [result_expandMacro_of_definition named]
    cases found : lookup invocation.name with
    | none => exact failsWith_fail (early _ trivial)
    | some definition =>
      rw [result_expandBy, result_expandWith_eq]
      refine FailsWith.map ?_ _
      refine (failsWith_pasted early (fun shape => template definition shape found)
        invocation).bind fun text _ => ?_
      exact (failsWith_resynthesize early text invocation.span).bind fun elements _ =>
        failsWith_bindAll nowhere elements

end

end MacroExpansion
