import MacroExpansion.Expansion.Expand

/-!
# Results are in the scope of their invocation

Whichever way an invocation is expanded, its results are placed in the scope that its context names;
where the context names none, there are no results.
-/
namespace MacroExpansion

namespace Eventful

variable {ε α β : Type}

/-- A value that an attempt gives after some events. -/
def Gives (attempt : Eventful ε α) (value : α) : Prop :=
  ∃ events, (attempt.run.run events).1 = .ok value

theorem Gives.of_bind {attempt : Eventful ε α} {f : α → Eventful ε β} {value : β}
    (h : Gives (attempt >>= f) value) : ∃ given, attempt.Gives given ∧ (f given).Gives value := by
  obtain ⟨events, given⟩ := h
  rw [ExceptT.run_bind, StateT.run_bind] at given
  rcases found : attempt.run.run events with ⟨cause | a, later⟩ <;> rw [found] at given
  · cases given
  · exact ⟨a, ⟨events, by rw [found]⟩, later, given⟩

theorem Gives.of_ofAttempt {attempt : Attempt ε α} {value : α}
    (h : Gives (ofAttempt attempt) value) : attempt = .ok value := by
  obtain ⟨_, given⟩ := h
  exact given

theorem Gives.of_pure {given value : α} (h : Gives (pure given : Eventful ε α) value) :
    given = value := by
  obtain ⟨_, same⟩ := h
  cases same
  rfl

theorem not_gives_fail {cause : ε} {value : α} : ¬ Gives (fail cause : Eventful ε α) value :=
  fun ⟨_, given⟩ => by cases given

end Eventful

theorem context_of_mapM_bind? {elements : List Element} {context : InvocationContext}
    {results : List BoundElement} (h : (elements.mapM fun e => e.bind? context) = some results) :
    ∀ result ∈ results, context.scope? = some result.context := by
  induction elements generalizing results with
  | nil =>
    cases h
    exact fun _ member => by cases member
  | cons e rest ih =>
    rw [List.mapM_cons] at h
    obtain ⟨bound, placed, h⟩ := Option.bind_eq_some_iff.mp h
    obtain ⟨later, others, h⟩ := Option.bind_eq_some_iff.mp h
    obtain ⟨scope, named, rfl⟩ := Option.map_eq_some_iff.mp placed
    cases h
    intro result member
    rcases List.mem_cons.mp member with rfl | member
    · exact named
    · exact ih others result member

theorem context_of_bindAll {elements : List Element} {context : InvocationContext}
    {results : List BoundElement} (h : bindAll elements context = .ok results) :
    ∀ result ∈ results, context.scope? = some result.context := by
  unfold bindAll at h
  cases bound : elements.mapM fun e => e.bind? context with
  | none =>
    rw [bound] at h
    cases h
  | some made =>
    rw [bound] at h
    cases h
    exact context_of_mapM_bind? bound

theorem context_of_expandWith {d : MacroDefinition} {invocation : MacroInvocation}
    {results : List BoundElement} (h : (expandWith d invocation).Gives results) :
    ∀ result ∈ results, invocation.context.scope? = some result.context := by
  unfold expandWith at h
  obtain ⟨shape, _, h⟩ := h.of_bind
  obtain ⟨fragments, _, h⟩ := h.of_bind
  obtain ⟨template, _, h⟩ := h.of_bind
  split at h
  · obtain ⟨_, failed, h⟩ := h.of_bind
    exact absurd failed Eventful.not_gives_fail
  · obtain ⟨elements, _, h⟩ := h.of_bind
    exact context_of_bindAll h.of_ofAttempt

theorem context_of_expandBuiltin? {invocation : MacroInvocation}
    {attempt : Eventful ExpandError (List BoundElement)} {results : List BoundElement}
    (builtin : expandBuiltin? invocation = some attempt) (h : attempt.Gives results) :
    ∀ result ∈ results, invocation.context.scope? = some result.context := by
  unfold expandBuiltin? at builtin
  split at builtin
  · cases builtin
    obtain ⟨_, _, h⟩ := h.of_bind
    obtain ⟨element, _, h⟩ := h.of_bind
    exact context_of_bindAll h.of_ofAttempt
  · cases builtin

theorem context_of_expandMacro {lookup : Ident → Option MacroDefinition}
    {invocation : MacroInvocation} {expansion : Expansion}
    (h : (expandMacro lookup invocation).Gives expansion) :
    ∀ result ∈ expansion.results, invocation.context.scope? = some result.context := by
  unfold expandMacro at h
  split at h
  next attempt builtin =>
    obtain ⟨results, given, h⟩ := h.of_bind
    cases h.of_pure
    exact context_of_expandBuiltin? builtin given
  next =>
    obtain ⟨_, _, h⟩ := h.of_bind
    split at h
    · exact absurd h Eventful.not_gives_fail
    next d _ =>
      obtain ⟨_, _, h⟩ := h.of_bind
      obtain ⟨results, given, h⟩ := h.of_bind
      cases h.of_pure
      exact context_of_expandWith given

theorem context_of_expandOrNone {lookup : Ident → Option MacroDefinition}
    {invocation : MacroInvocation} {results : List BoundElement}
    (h : (expandOrNone lookup invocation).Gives (some results)) :
    ∀ result ∈ results, invocation.context.scope? = some result.context := by
  obtain ⟨events, given⟩ := h
  unfold expandOrNone at given
  rw [ExceptT.run_mk, StateT.run_bind] at given
  rcases found : (expandMacro lookup invocation).run.run events with
    ⟨(cause | _) | expansion, later⟩ <;> rw [found] at given
  · cases given
  · cases given
  · cases given
    exact context_of_expandMacro ⟨events, by rw [found]⟩

end MacroExpansion
