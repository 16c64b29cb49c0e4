import MacroExpansion.Proofs.Expansion.Failures

/-!
# What an expansion may depend on

A lazily evaluated static is expanded without asking for a definition; any other invocation asks for
one definition, by its name, and depends on nothing else that could be asked for. Of an expansion's
context only the scope is told to the results, and of its location only where they come from. An
error is the same in every place, but for the one error of having no place.
-/
namespace MacroExpansion

/-- The same expansion in another scope. -/
def Expansion.movedTo (scope : ScopeId) (e : Expansion) : Expansion :=
  { e with results := e.results.map fun result => { result with context := scope } }

/-- The same expansion, made from an invocation at another location. -/
def Expansion.attributed (invocation : Span) (e : Expansion) : Expansion :=
  { e with results := e.results.map fun result =>
    { result with span := Span.within (some invocation) result.span.place } }

/-- The definitions that an expansion asks for, in order. -/
def asked (lookup : Ident → Option MacroDefinition) (invocation : MacroInvocation) : List Event :=
  (expandMacro lookup invocation).reported.filter Event.isLookup

theorem asked_of_static {invocation : MacroInvocation}
    (named : invocation.name = LazyStatic.invocationName)
    (lookup : Ident → Option MacroDefinition) : asked lookup invocation = [] := by
  rw [asked, expandMacro_of_static named]
  exact (quiet_expandStatic invocation).asks

theorem asked_of_definition {invocation : MacroInvocation}
    (other : invocation.name ≠ LazyStatic.invocationName)
    (lookup : Ident → Option MacroDefinition) :
    asked lookup invocation = [.lookup invocation.name] := by
  have found := quiet_expandBy (lookup invocation.name) invocation
  rw [asked, expandMacro_of_definition other,
    (Eventful.additive_report _).reported_bind fun _ => found.additive]
  change List.filter _ ([Event.lookup invocation.name] ++ _) = _
  rw [List.filter_append, found.asks]
  rfl

/-- The expansions of an invocation in all places come from the one without a place. -/
theorem result_expandMacro_at (lookup : Ident → Option MacroDefinition)
    (invocation : MacroInvocation) (span : Span) (context : InvocationContext) :
    (expandMacro lookup { invocation with span, context }).result =
      (expandMacro lookup invocation.unplaced).result >>= Expansion.placed span context :=
  result_expandMacro lookup { invocation with span, context }

/-- Where there is a scope, having none is not what an expansion fails for. -/
theorem result_ne_contextBindFailed {invocation : MacroInvocation} {scope : ScopeId}
    (named : invocation.context.scope? = some scope) (lookup : Ident → Option MacroDefinition) :
    (expandMacro lookup invocation).result ≠ Attempt.fail .contextBindFailed := by
  have others (cause : ExpandError) (early : cause.IsEarly) : cause ≠ .contextBindFailed := by
    rintro rfl
    exact early
  have fails : Attempt.FailsWith (· ≠ .contextBindFailed) (expandMacro lookup invocation).result :=
    failsWith_expandMacro others (fun _ _ _ _ _ => by simp)
      (fun unscoped => by rw [named] at unscoped; cases unscoped)
  exact fun failed => fails _ failed rfl

/-- What the expansion of an invocation depends on. -/
structure MacroInvocation.Dependence (invocation : MacroInvocation) : Prop where
  /-- A static never asks, and is the same whatever the answers would be. -/
  static : invocation.name = LazyStatic.invocationName → ∀ lookup other,
    asked lookup invocation = [] ∧
      (expandMacro lookup invocation).outcome = (expandMacro other invocation).outcome
  /-- Any other invocation asks once, and the answer decides. -/
  definition : invocation.name ≠ LazyStatic.invocationName → ∀ lookup,
    asked lookup invocation = [.lookup invocation.name] ∧
      ∀ other, lookup invocation.name = other invocation.name →
        (expandMacro lookup invocation).outcome = (expandMacro other invocation).outcome
  /-- Two contexts that name scopes differ in the scope of the results. -/
  scope : ∀ lookup (a b : InvocationContext) (s t : ScopeId),
    a.scope? = some s → b.scope? = some t →
    (expandMacro lookup { invocation with context := b }).result =
      (expandMacro lookup { invocation with context := a }).result.map (Expansion.movedTo t)
  /-- Where nothing can be declared, an expansion fails for that alone exactly if it would otherwise
  succeed; every other failure is the same. -/
  nowhere : ∀ lookup (a : InvocationContext) (s : ScopeId), a.scope? = some s →
    ((expandMacro lookup { invocation with context := .expression }).result =
        Attempt.fail .contextBindFailed ↔
      ∃ e, (expandMacro lookup { invocation with context := a }).result = .ok e) ∧
    ∀ failure, (expandMacro lookup { invocation with context := a }).result = .error failure →
      (expandMacro lookup { invocation with context := .expression }).result = .error failure
  /-- Another location is told to the results and changes nothing else. -/
  location : ∀ lookup (span : Span),
    (expandMacro lookup { invocation with span }).result =
      (expandMacro lookup invocation).result.map (Expansion.attributed span)

/-- Every invocation depends on one definition at most, by its name, and on its place only for the
scope of its results and for where they come from. -/
theorem MacroInvocation.depends_on_name_and_place (invocation : MacroInvocation) :
    invocation.Dependence where
  static := by
    intro named lookup other
    rw [expandMacro_of_static named, expandMacro_of_static named]
    exact ⟨asked_of_static named lookup, rfl⟩
  definition := by
    intro named lookup
    refine ⟨asked_of_definition named lookup, fun other agree => ?_⟩
    rw [expandMacro_of_definition named, expandMacro_of_definition named, agree]
  scope := by
    intro lookup a b s t first second
    rw [result_expandMacro_at lookup invocation, result_expandMacro_at lookup invocation]
    cases (expandMacro lookup invocation.unplaced).result with
    | error failure => rfl
    | ok e =>
      change e.placed invocation.span b = (e.placed invocation.span a).map (Expansion.movedTo t)
      simp [Expansion.placed, first, second, Except.map, Expansion.movedTo, BoundElement.placed]
  nowhere := by
    intro lookup a s named
    have never : (expandMacro lookup { invocation with context := a }).result ≠
        Attempt.fail .contextBindFailed := result_ne_contextBindFailed named lookup
    rw [result_expandMacro_at lookup invocation] at never ⊢
    rw [result_expandMacro_at lookup invocation]
    generalize (expandMacro lookup invocation.unplaced).result = attempt at never ⊢
    cases attempt with
    | error failure =>
      refine ⟨⟨fun failed => absurd failed never, fun expanded => ?_⟩, fun _ same => same⟩
      obtain ⟨e, given⟩ := expanded
      cases given
    | ok e =>
      have placed : e.placed invocation.span a =
          .ok { e with results := e.results.map (BoundElement.placed invocation.span s) } := by
        rw [Expansion.placed, named]
      refine ⟨⟨fun _ => ⟨_, placed⟩, fun _ => rfl⟩, fun failure failed => ?_⟩
      change e.placed invocation.span a = .error failure at failed
      rw [placed] at failed
      cases failed
  location := by
    intro lookup span
    rw [result_expandMacro_at lookup invocation, result_expandMacro lookup invocation]
    cases (expandMacro lookup invocation.unplaced).result with
    | error failure => rfl
    | ok e =>
      change e.placed span invocation.context =
        (e.placed invocation.span invocation.context).map (Expansion.attributed span)
      unfold Expansion.placed
      cases invocation.context.scope? with
      | none => rfl
      | some scope => simp [Except.map, Expansion.attributed, BoundElement.placed, Span.within]

end MacroExpansion
