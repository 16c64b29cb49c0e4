import MacroExpansion.Proofs.Expansion.Attribution

/-!
# Results point at the outermost invocation

An expansion that succeeds has results, all in the scope of its invocation, and all of them point at
one location that is itself not expanded from anything. A result's location may be that of an
invocation again: along any chain of expansions all locations go on to point at the first one.
-/
namespace MacroExpansion

/-- The outermost invocation of a location: the one it was expanded from, or itself. -/
def Span.top (s : Span) : Span :=
  s.invocation?.getD s

namespace Span

variable {s : Span}

theorem outer_top (nested : s.outer.length ≤ 1) : s.top.outer = [] := by
  cases outer : s.outer with
  | nil => simp [top, invocation?, outer]
  | cons p rest =>
    have last : rest.length = 0 := by
      rw [outer, List.length_cons] at nested
      omega
    simpa [top, invocation?, outer] using last

theorem invocation?_within (nested : s.outer.length ≤ 1) (place : Place) :
    (within (some s) place).invocation? = some s.top := by
  obtain ⟨p, outer⟩ := s
  cases outer with
  | nil => simp [within, outermost, top, invocation?]
  | cons q rest => simp [within, outermost, top, invocation?]

theorem length_outer_within (nested : s.outer.length ≤ 1) (place : Place) :
    (within (some s) place).outer.length = 1 :=
  length_outermost s nested

end Span

/-! ## One expansion -/

/-- Every result is in the scope of the invocation, and is expanded from its location. -/
theorem placed_of_expandMacro {lookup : Ident → Option MacroDefinition}
    {invocation : MacroInvocation} {e : Expansion}
    (given : (expandMacro lookup invocation).result = .ok e) :
    ∃ scope, invocation.context.scope? = some scope ∧
      ∀ r ∈ e.results, r.context = scope ∧
        ∃ place, r.span = .within (some invocation.span) place := by
  rw [result_expandMacro] at given
  generalize (expandMacro lookup invocation.unplaced).result = attempt at given
  cases attempt with
  | error failure => cases given
  | ok before =>
    change before.placed invocation.span invocation.context = .ok e at given
    unfold Expansion.placed at given
    cases named : invocation.context.scope? with
    | none =>
      rw [named] at given
      cases given
    | some scope =>
      rw [named] at given
      cases given
      refine ⟨scope, rfl, fun r member => ?_⟩
      obtain ⟨result, _, rfl⟩ := List.mem_map.mp member
      exact ⟨rfl, result.span.place, rfl⟩

theorem length_of_bindAll {elements : List Element} {context : InvocationContext}
    {results : List BoundElement} (given : bindAll elements context = .ok results) :
    results.length = elements.length := by
  cases named : context.scope? with
  | some scope =>
    rw [bindAll_of_scope named] at given
    cases given
    exact List.length_map _
  | none =>
    by_cases empty : elements = []
    · subst empty
      cases given
      rfl
    · rw [bindAll_of_no_scope named empty] at given
      cases given

/-- A static is expanded to one result, by its own rule. -/
theorem expansion_of_static {invocation : MacroInvocation}
    (named : invocation.name = LazyStatic.invocationName)
    {lookup : Ident → Option MacroDefinition} {e : Expansion}
    (given : (expandMacro lookup invocation).result = .ok e) :
    e.origin = .builtin ∧ e.results.length = 1 := by
  rw [expandMacro_of_static named, result_expandStatic] at given
  obtain ⟨element, _, given⟩ := Attempt.of_bind_ok given
  obtain ⟨results, bound, rfl⟩ := Attempt.of_map_ok given
  exact ⟨rfl, length_of_bindAll bound⟩

/-- Any other invocation is expanded by its definition, to at least one result. -/
theorem expansion_of_definition {invocation : MacroInvocation}
    (other : invocation.name ≠ LazyStatic.invocationName)
    {lookup : Ident → Option MacroDefinition} {e : Expansion}
    (given : (expandMacro lookup invocation).result = .ok e) :
    e.origin = .definition ∧ e.results ≠ [] := by
  rw [result_expandMacro_of_definition other] at given
  cases found : lookup invocation.name with
  | none =>
    rw [found] at given
    cases given
  | some definition =>
    rw [found, result_expandBy, result_expandWith_eq] at given
    obtain ⟨results, expanded, rfl⟩ := Attempt.of_map_ok given
    obtain ⟨text, _, expanded⟩ := Attempt.of_bind_ok expanded
    obtain ⟨elements, synthesized, bound⟩ := Attempt.of_bind_ok expanded
    have nonempty := List.length_pos_iff.mpr (ne_nil_of_resynthesize synthesized)
    rw [← length_of_bindAll bound] at nonempty
    exact ⟨rfl, List.length_pos_iff.mp nonempty⟩

/-! ## Chains of expansions -/

/-- An invocation, with what it expands to. -/
structure Expanded where
  invocation : MacroInvocation
  expansion : Expansion

/-- By some definitions it does expand to that. -/
def Expanded.Made (x : Expanded) : Prop :=
  ∃ lookup, (expandMacro lookup x.invocation).result = .ok x.expansion

/-- Expansions in a row, the invocation of each but the first at the location of a result of the one
before it. -/
inductive Chain : List Expanded → Prop where
  | single {x : Expanded} (made : x.Made) : Chain [x]
  | cons {x y : Expanded} {rest : List Expanded} {r : BoundElement} (made : x.Made)
    (given : r ∈ x.expansion.results) (there : y.invocation.span = r.span)
    (later : Chain (y :: rest)) : Chain (x :: y :: rest)

/-- What an expansion keeps to, `top` being the outermost invocation. -/
structure Expanded.PointsAt (x : Expanded) (top : Span) : Prop where
  nonempty : x.expansion.results ≠ []
  static : x.expansion.origin = .builtin ↔ x.invocation.name = LazyStatic.invocationName
  single : x.expansion.origin = .builtin → x.expansion.results.length = 1
  scope : ∃ scope, x.invocation.context.scope? = some scope ∧
    ∀ r ∈ x.expansion.results, r.context = scope
  nested : x.invocation.span.outer.length ≤ 1
  outermost : x.invocation.span.top = top ∧ top.outer = []
  results : ∀ r ∈ x.expansion.results,
    r.span.invocation? = some top ∧ r.span.outer.length = 1

theorem Expanded.Made.pointsAt {x : Expanded} (h : x.Made)
    (nested : x.invocation.span.outer.length ≤ 1) : x.PointsAt x.invocation.span.top := by
  obtain ⟨lookup, given⟩ := h
  obtain ⟨scope, named, placed⟩ := placed_of_expandMacro given
  have results (r) (member : r ∈ x.expansion.results) :
      r.span.invocation? = some x.invocation.span.top ∧ r.span.outer.length = 1 := by
    obtain ⟨_, place, within⟩ := placed r member
    rw [within]
    exact ⟨Span.invocation?_within nested place, Span.length_outer_within nested place⟩
  have place : ∃ scope, x.invocation.context.scope? = some scope ∧
      ∀ r ∈ x.expansion.results, r.context = scope :=
    ⟨scope, named, fun r member => (placed r member).1⟩
  have top := Span.outer_top nested
  by_cases static : x.invocation.name = LazyStatic.invocationName
  · obtain ⟨origin, single⟩ := expansion_of_static static given
    have nonempty : x.expansion.results ≠ [] := by
      rw [← List.length_pos_iff]
      omega
    exact ⟨nonempty, by simp [origin, static], fun _ => single, place, nested, ⟨rfl, top⟩, results⟩
  · obtain ⟨origin, nonempty⟩ := expansion_of_definition static given
    exact ⟨nonempty, by simp [origin, static], by simp [origin], place, nested, ⟨rfl, top⟩, results⟩

/-- The location of a result is nested once, and points where the invocation pointed. -/
theorem Expanded.PointsAt.result {x : Expanded} {top : Span} (h : x.PointsAt top)
    {r : BoundElement} (member : r ∈ x.expansion.results) :
    r.span.outer.length ≤ 1 ∧ r.span.top = top := by
  obtain ⟨points, once⟩ := h.results r member
  exact ⟨by omega, by rw [Span.top, points, Option.getD_some]⟩

theorem Chain.pointsAt {x : Expanded} {rest : List Expanded} (chain : Chain (x :: rest))
    (nested : x.invocation.span.outer.length ≤ 1) :
    ∀ y ∈ x :: rest, y.PointsAt x.invocation.span.top := by
  induction rest generalizing x with
  | nil =>
    cases chain with
    | single made =>
      intro y member
      rw [List.mem_singleton.mp member]
      exact made.pointsAt nested
  | cons z rest ih =>
    cases chain with
    | cons made given there later =>
      have first := made.pointsAt nested
      obtain ⟨once, top⟩ := first.result given
      rw [← there] at once top
      intro y member
      rcases List.mem_cons.mp member with rfl | member
      · exact first
      · rw [← top]
        exact ih later once y member

/-- An invocation that is nested once at most and expands has results, all in its scope, which point
at its outermost invocation; and so do the results of all expansions that a chain leads to from
them. -/
theorem expansion_nests_once {lookup : Ident → Option MacroDefinition}
    {invocation : MacroInvocation} {e : Expansion}
    (nested : invocation.span.outer.length ≤ 1)
    (given : (expandMacro lookup invocation).result = .ok e) :
    Expanded.PointsAt ⟨invocation, e⟩ invocation.span.top ∧
      ∀ rest, Chain (⟨invocation, e⟩ :: rest) →
        ∀ y ∈ rest, y.PointsAt invocation.span.top := by
  have made : Expanded.Made ⟨invocation, e⟩ := ⟨lookup, given⟩
  refine ⟨made.pointsAt nested, fun rest chain y member => ?_⟩
  exact chain.pointsAt nested y (List.mem_cons_of_mem _ member)

/-- A structure that a definition makes, and a static at its location. -/
theorem expansion_nests_once_items :
    let definition : MacroDefinition :=
      ⟨⟨"items"⟩, "macro_rules! items { ($($i:item)*) => ($(pub $i)*) }", .fake⟩
    let written : MacroInvocation := ⟨⟨"items"⟩, "items!(struct A;)", .fake, .module ⟨0⟩⟩
    ∃ e later, written.span.outer.length ≤ 1 ∧
      (expandMacro (fun _ => some definition) written).result = .ok e ∧
      Chain [⟨written, e⟩, later] ∧ Expanded.PointsAt ⟨written, e⟩ written.span.top ∧
      later.PointsAt written.span.top := by
  intro definition written
  let made : Span := ⟨⟨"MACRO.rs", 1, 0, 1, 13⟩, [Span.fake.place]⟩
  let result : BoundElement := ⟨⟨.struct, some ⟨"A"⟩, [], "pub struct A;", made⟩, ⟨0⟩⟩
  let inner : MacroInvocation :=
    ⟨⟨"lazy_static"⟩, "lazy_static!(static ref B:u8=1;)", made, .block ⟨3⟩⟩
  let static : BoundElement := ⟨⟨.static, some ⟨"B"⟩, [], "static B:u8=1;",
    ⟨⟨"lazy_static.rs", 1, 0, 1, 14⟩, [Span.fake.place]⟩⟩, ⟨3⟩⟩
  have first : (expandMacro (fun _ => some definition) written).result =
      .ok ⟨.definition, [result]⟩ := Attempt.of_toOption (by decide +kernel)
  have second : (expandMacro (fun _ => none) inner).result = .ok ⟨.builtin, [static]⟩ :=
    Attempt.of_toOption (by decide +kernel)
  have chain : Chain [⟨written, ⟨.definition, [result]⟩⟩, ⟨inner, ⟨.builtin, [static]⟩⟩] :=
    .cons ⟨_, first⟩ List.mem_cons_self rfl (.single ⟨_, second⟩)
  obtain ⟨points, later⟩ := expansion_nests_once (by decide) first
  exact ⟨_, _, by decide, first, chain, points, later _ chain _ List.mem_cons_self⟩

end MacroExpansion
