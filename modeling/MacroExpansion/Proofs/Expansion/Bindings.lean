import MacroExpansion.Proofs.Expansion.Requests
import MacroExpansion.Proofs.Walk.Consistency

/-!
# The first to bind a name keeps it

A slot of a scope is bound by the first attempt on it, and every further attempt is refused and
reported. Attempts are made by the declarations of a file in the order of its outline, and once its
invocations are expanded by their results, in order. So a tree's bindings and warnings can be told
from these.
-/
namespace MacroExpansion

/-- The binding of a slot by the first attempt on it. -/
def firstBinding (attempts : List (ScopeId × Declaration)) (scope : ScopeId) (slot : Slot) :
    Option Binding :=
  (attempts.find? fun a => a.1 = scope ∧ a.2.slot = slot).map fun a => a.2.binding

/-- Whether an attempt was made on a slot of a scope. -/
def attempted (attempts : List (ScopeId × Declaration)) (scope : ScopeId) (slot : Slot) : Bool :=
  attempts.any fun a => a.1 = scope ∧ a.2.slot = slot

/-- The attempts on slots on which there was one before, `before` being the earlier ones. -/
def repeated (before : List (ScopeId × Declaration)) :
    List (ScopeId × Declaration) → List (ScopeId × Declaration)
  | [] => []
  | a :: rest =>
    (if attempted before a.1 a.2.slot then [a] else []) ++ repeated (before ++ [a]) rest

theorem repeated_append (before xs ys : List (ScopeId × Declaration)) :
    repeated before (xs ++ ys) = repeated before xs ++ repeated (before ++ xs) ys := by
  induction xs generalizing before with
  | nil => rw [List.nil_append, List.append_nil, repeated, List.nil_append]
  | cons a rest ih =>
    rw [List.cons_append, repeated, repeated, ih, List.append_assoc, List.append_assoc,
      List.singleton_append]

theorem firstBinding_append (xs ys : List (ScopeId × Declaration)) (scope : ScopeId) (slot : Slot) :
    firstBinding (xs ++ ys) scope slot =
      (firstBinding xs scope slot).or (firstBinding ys scope slot) := by
  unfold firstBinding
  rw [List.find?_append]
  cases xs.find? fun a => a.1 = scope ∧ a.2.slot = slot <;> rfl

theorem firstBinding_singleton (scope other : ScopeId) (d : Declaration) (slot : Slot) :
    firstBinding [(scope, d)] other slot =
      if other = scope ∧ slot = d.slot then some d.binding else none := by
  unfold firstBinding
  by_cases same : other = scope ∧ slot = d.slot
  · obtain ⟨rfl, rfl⟩ := same
    simp
  · have different : ¬ (scope = other ∧ d.slot = slot) := fun both =>
      same ⟨both.1.symm, both.2.symm⟩
    simp [same, different]

theorem isSome_firstBinding (attempts : List (ScopeId × Declaration)) (scope : ScopeId)
    (slot : Slot) : (firstBinding attempts scope slot).isSome = attempted attempts scope slot := by
  unfold firstBinding attempted
  rw [Option.isSome_map]
  exact List.isSome_find?

namespace ScopeTree

/-- How many bindings there are. -/
def bindingCount (t : ScopeTree) : Nat :=
  (t.nodes.toList.flatMap fun node => node.bindings.entries).length

theorem binding?_add (t : ScopeTree) (kind : ScopeKind) (parent : ScopeId) (scope : ScopeId)
    (slot : Slot) : (t.add kind parent).1.binding? scope slot = t.binding? scope slot := by
  unfold binding? get? add
  rw [Array.getElem?_push]
  split
  next last =>
    rw [last, Array.getElem?_eq_none (Nat.le_refl _)]
    rfl
  next => rfl

theorem bindingCount_add (t : ScopeTree) (kind : ScopeKind) (parent : ScopeId) :
    (t.add kind parent).1.bindingCount = t.bindingCount := by
  simp [bindingCount, add, ScopeBindings.empty]

/-- A name is bound already exactly where it is refused. -/
theorem declare_of_bound {t : ScopeTree} {scope : ScopeId} {slot : Slot}
    (bound : (t.binding? scope slot).isSome) (binding : Binding) :
    t.declare scope slot binding = .error ⟨slot⟩ := by
  unfold binding? at bound
  unfold declare
  cases found : t.get? scope with
  | none =>
    rw [found] at bound
    cases bound
  | some node =>
    rw [found] at bound
    obtain ⟨old, taken⟩ := Option.isSome_iff_exists.mp bound
    have refused : node.bindings.insert slot binding = .error ⟨slot⟩ := by
      unfold ScopeBindings.insert
      rw [show node.bindings.get? slot = some old from taken]
    simp only [refused]
    rfl

theorem length_flatMap_modify {α β : Type} (g : α → List β) (f : α → α) (list : List α) {i : Nat}
    {a : α} (found : list[i]? = some a) (more : (g (f a)).length = (g a).length + 1) :
    ((list.modify i f).flatMap g).length = (list.flatMap g).length + 1 := by
  induction list generalizing i with
  | nil => cases found
  | cons b rest ih =>
    cases i with
    | zero =>
      cases found
      rw [List.modify_zero_cons, List.flatMap_cons, List.flatMap_cons, List.length_append,
        List.length_append, more]
      omega
    | succ i =>
      rw [List.modify_succ_cons, List.flatMap_cons, List.flatMap_cons, List.length_append,
        List.length_append, ih found]
      omega

/-- A free name of a scope is bound, and nothing else changes. -/
theorem declare_of_free {t : ScopeTree} {scope : ScopeId} {slot : Slot}
    (standing : t.get? scope ≠ none) (free : t.binding? scope slot = none) (binding : Binding) :
    ∃ made, t.declare scope slot binding = .ok made ∧
      (∀ other slot', made.binding? other slot' =
        if other = scope ∧ slot' = slot then some binding else t.binding? other slot') ∧
      made.bindingCount = t.bindingCount + 1 := by
  obtain ⟨node, found⟩ := Option.ne_none_iff_exists'.mp standing
  have unbound : node.bindings.get? slot = none := by
    rw [binding?, found] at free
    exact free
  obtain ⟨bindings, inserted, entries⟩ : ∃ bindings,
      node.bindings.insert slot binding = .ok bindings ∧
      bindings.entries.length = node.bindings.entries.length + 1 := by
    unfold ScopeBindings.insert
    rw [unbound]
    exact ⟨_, rfl, by rw [List.length_append]; rfl⟩
  refine ⟨⟨t.nodes.modify scope.index fun node => { node with bindings }⟩, ?_, ?_, ?_⟩
  · simp only [declare, found, inserted]
    rfl
  · intro other slot'
    by_cases same : other = scope
    · subst same
      have changed : binding? ⟨t.nodes.modify other.index fun node => { node with bindings }⟩ other
          slot' = bindings.get? slot' := by
        unfold get? at found
        rw [binding?, get?, Array.getElem?_modify, if_pos rfl, found]
        rfl
      rw [changed, ScopeBindings.get?_insert inserted, binding?, found]
      simp
    · have elsewhere : scope.index ≠ other.index := fun index =>
        same (congrArg ScopeId.mk index.symm)
      rw [if_neg fun both => same both.1, binding?, get?, Array.getElem?_modify, if_neg elsewhere]
      rfl
  · unfold bindingCount
    rw [Array.toList_modify]
    apply length_flatMap_modify _ _ _ (a := node)
    · rw [Array.getElem?_toList]
      exact found
    · exact entries

end ScopeTree

namespace TracedTree

theorem declare_of_bound {t : TracedTree} {scope : ScopeId} {d : Declaration}
    (bound : (t.tree.scopes.binding? scope d.slot).isSome) :
    t.declare scope d = t.report (.refused d.span ⟨d.slot⟩) := by
  unfold declare
  rw [ScopeTree.declare_of_bound bound]

theorem declare_of_free {t : TracedTree} {scope : ScopeId} {d : Declaration}
    (standing : t.tree.scopes.get? scope ≠ none)
    (free : t.tree.scopes.binding? scope d.slot = none) :
    ∃ scopes, t.declare scope d = ⟨{ t.tree with scopes }, t.events⟩ ∧
      (∀ other slot, scopes.binding? other slot =
        if other = scope ∧ slot = d.slot then some d.binding
        else t.tree.scopes.binding? other slot) ∧
      scopes.bindingCount = t.tree.scopes.bindingCount + 1 := by
  obtain ⟨made, declared, binding, count⟩ := ScopeTree.declare_of_free standing free d.binding
  refine ⟨made, ?_, binding, count⟩
  unfold declare
  rw [declared]

/-- The bindings of a tree are those of the first attempts, and its warnings tell of the others. -/
structure Settles (t : TracedTree) (attempts : List (ScopeId × Declaration)) : Prop where
  binding : ∀ scope slot, t.tree.scopes.binding? scope slot = firstBinding attempts scope slot
  refusals : t.events.filterMap TreeEvent.refusal? =
    (repeated [] attempts).map fun a => (a.2.span, ⟨a.2.slot⟩)
  count : attempts.length = t.tree.scopes.bindingCount + (repeated [] attempts).length

variable {t : TracedTree} {attempts : List (ScopeId × Declaration)}

namespace Settles

/-- What neither binds nor refuses changes nothing. -/
theorem of_same {made : TracedTree} (h : t.Settles attempts)
    (binding : ∀ scope slot,
      made.tree.scopes.binding? scope slot = t.tree.scopes.binding? scope slot)
    (count : made.tree.scopes.bindingCount = t.tree.scopes.bindingCount)
    (refusals : made.events.filterMap TreeEvent.refusal? = t.events.filterMap TreeEvent.refusal?) :
    made.Settles attempts where
  binding := fun scope slot => by rw [binding, h.binding]
  refusals := by rw [refusals, h.refusals]
  count := by rw [count, h.count]

theorem report (h : t.Settles attempts) {event : TreeEvent} (quiet : event.refusal? = none) :
    (t.report event).Settles attempts :=
  h.of_same (fun _ _ => rfl) rfl (by simp [TracedTree.report, quiet])

/-- The first attempt on a slot binds it, and a later one is reported. -/
theorem declare (h : t.Settles attempts) {scope : ScopeId}
    (standing : t.tree.scopes.get? scope ≠ none) (d : Declaration) :
    (t.declare scope d).Settles (attempts ++ [(scope, d)]) := by
  have before := h.binding scope d.slot
  have number : (attempts ++ [(scope, d)]).length = attempts.length + 1 := List.length_append
  cases taken : attempted attempts scope d.slot with
  | true =>
    have again : repeated [] (attempts ++ [(scope, d)]) = repeated [] attempts ++ [(scope, d)] := by
      rw [repeated_append, List.nil_append, repeated, if_pos taken, repeated, List.append_nil]
    rw [← isSome_firstBinding, ← before] at taken
    rw [declare_of_bound taken]
    refine ⟨fun other slot => ?_, ?_, ?_⟩
    · rw [firstBinding_append, ← h.binding, firstBinding_singleton]
      split
      next same =>
        obtain ⟨b, bound⟩ := Option.isSome_iff_exists.mp taken
        rw [same.1, same.2, bound]
        exact bound
      next => exact Option.or_none.symm
    · rw [again, List.map_append, ← h.refusals]
      simp [TracedTree.report, TreeEvent.refusal?]
    · rw [again, number, List.length_append, h.count]
      rfl
  | false =>
    have first : repeated [] (attempts ++ [(scope, d)]) = repeated [] attempts := by
      rw [repeated_append, List.nil_append, repeated, taken]
      exact List.append_nil _
    rw [← isSome_firstBinding, ← before] at taken
    have free : t.tree.scopes.binding? scope d.slot = none :=
      Option.isNone_iff_eq_none.mp (Option.isSome_eq_false_iff.mp taken)
    obtain ⟨scopes, made, binding, count⟩ := declare_of_free standing free
    rw [made]
    refine ⟨fun other slot => ?_, ?_, ?_⟩
    · rw [firstBinding_append, ← h.binding, firstBinding_singleton, binding]
      split
      next same => rw [same.1, same.2, free, Option.none_or]
      next => exact Option.or_none.symm
    · rw [first]
      exact h.refusals
    · rw [first, number, h.count, count]
      omega

theorem step (h : t.Settles attempts) {s : TreeStep} (sound : s.Sound t) :
    (t.step s).Settles (attempts ++ s.declared?.toList) := by
  cases s with
  | report event =>
    change Settles _ (attempts ++ [])
    rw [List.append_nil]
    exact h.report sound
  | declare scope d =>
    obtain ⟨kind, standing⟩ := sound
    exact h.declare (ScopeTree.get?_of_kind? standing) d
  | addScope kind parent =>
    change Settles _ (attempts ++ [])
    rw [List.append_nil]
    exact h.of_same (ScopeTree.binding?_add _ kind parent)
      (ScopeTree.bindingCount_add _ kind parent) rfl
  | register name body =>
    change Settles (t.register name body) (attempts ++ [])
    rw [List.append_nil, register]
    split
    · exact h.report rfl
    · exact h.of_same (fun _ _ => rfl) rfl rfl
  | append _ _ | submodule _ | record _ _ =>
    change Settles _ (attempts ++ [])
    rw [List.append_nil]
    exact h.of_same (fun _ _ => rfl) rfl rfl

/-- A run binds and refuses as its declarations ask for. -/
theorem run (h : t.Settles attempts) {steps : List TreeStep} (sound : t.Sound steps) :
    (t.run steps).Settles (attempts ++ steps.filterMap TreeStep.declared?) := by
  induction steps generalizing t attempts with
  | nil => rwa [List.filterMap_nil, List.append_nil]
  | cons s rest ih =>
    have later := ih (h.step sound.1) sound.2
    rw [List.append_assoc] at later
    rw [run_cons, List.filterMap_cons]
    cases found : s.declared? with
    | none => rwa [found] at later
    | some attempt => rwa [found] at later

end Settles

/-- Nothing is bound in an empty tree. -/
theorem settles_empty (file : String) :
    Settles ⟨.empty file, [.parsing file]⟩ [] where
  binding := fun ⟨index⟩ slot => by
    cases index <;> rfl
  refusals := rfl
  count := rfl

/-- An expanded tree has settled the attempts of its results after those made before. -/
theorem Settles.expanded (h : t.Settles attempts) (consistent : t.tree.Consistent) :
    t.expanded.Settles (attempts ++ t.tree.expansionDeclarations) := by
  have run := h.run consistent.sound_expansionSteps
  rw [SourceTree.declared_expansionSteps, run_expansionSteps] at run
  exact ⟨run.binding, run.refusals, run.count⟩

end TracedTree

end MacroExpansion
