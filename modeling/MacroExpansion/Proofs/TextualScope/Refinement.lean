import MacroExpansion.Proofs.TextualScope.Forest

/-!
# Linked scopes refine ordered lists

A history is any sequence of appends and submodules at scopes made before, in whatever order. It is
carried out on the linked scopes and on the forest of ordered lists. After any history the links are
those that the lists say, and the way back along the links ends with what the lists give.
-/
namespace MacroExpansion

/-- What was done to textual scopes; `n` scopes were made by it, numbered from 0 on. -/
inductive ScopeHistory : (n : Nat) → Type
  | empty : ScopeHistory 1
  | append {n : Nat} (before : ScopeHistory n) (scope : Fin n)
      (definition : Option MacroDefinition) : ScopeHistory (n + 1)
  | submodule {n : Nat} (before : ScopeHistory n) (scope : Fin n) : ScopeHistory (n + 1)

namespace ScopeHistory

/-- The linked scopes. -/
def scopes {n : Nat} : ScopeHistory n → TextualScopes
  | empty => .empty
  | append before scope definition => (before.scopes.append scope definition).1
  | submodule before scope => (before.scopes.submodule scope).1

/-- The ordered lists. -/
def forest {n : Nat} : ScopeHistory n → ScopeForest
  | empty => .empty
  | append before scope definition => before.forest.append scope definition
  | submodule before scope => before.forest.submodule scope

end ScopeHistory

/-- The links and definitions are those of the lists. -/
structure Represents (t : TextualScopes) (f : ScopeForest) : Prop where
  wellFormed : f.WellFormed
  size_eq : t.size = f.size
  nodes_eq : ∀ x, x < f.size →
    t.nodes[x]? = some ⟨f.previous? x, f.definition? x, f.next? x⟩

namespace Represents

variable {t : TextualScopes} {f : ScopeForest}

theorem empty : Represents .empty .empty where
  wellFormed := .empty
  size_eq := rfl
  nodes_eq x inside := by
    have first : x = 0 := by
      simp [ScopeForest.empty, ScopeForest.size] at inside
      exact inside
    subst first
    rfl

variable (h : Represents t f)
include h

theorem previous?_eq {x : Nat} (inside : x < f.size) : t.previous? x = f.previous? x := by
  simp [TextualScopes.previous?, h.nodes_eq x inside]

theorem definition?_eq {x : Nat} (inside : x < f.size) : t.definition? x = f.definition? x := by
  simp [TextualScopes.definition?, h.nodes_eq x inside]

theorem next?_eq {x : Nat} (inside : x < f.size) : t.next? x = f.next? x := by
  simp [TextualScopes.next?, h.nodes_eq x inside]

/-- Inserting into a list relinks the scopes of all lists as it has to. -/
theorem append {scope : Nat} (definition : Option MacroDefinition) (inside : scope < f.size) :
    Represents (t.append scope definition).1 (f.append scope definition) where
  wellFormed := h.wellFormed.append definition inside
  size_eq := by simp [h.size_eq]
  nodes_eq x bound := by
    rw [ScopeForest.size_append] at bound
    by_cases old : x < f.size
    · rw [TextualScopes.nodes_append t scope definition (h.size_eq ▸ old),
        h.wellFormed.previous?_append scope definition old,
        h.wellFormed.next?_append scope definition old, ScopeForest.definition?_append _ _ old,
        h.previous?_eq old, h.definition?_eq old, h.next?_eq old, h.next?_eq inside, h.size_eq]
    · have made : x = f.size := by omega
      rw [made, h.wellFormed.previous?_append_made definition inside,
        h.wellFormed.next?_append_made definition inside, ScopeForest.definition?_append_made,
        ← h.next?_eq inside, ← h.size_eq]
      exact TextualScopes.nodes_append_made t scope definition

theorem submodule {scope : Nat} (inside : scope < f.size) :
    Represents (t.submodule scope).1 (f.submodule scope) where
  wellFormed := h.wellFormed.submodule inside
  size_eq := by simp [h.size_eq]
  nodes_eq x bound := by
    rw [ScopeForest.size_submodule] at bound
    by_cases old : x < f.size
    · rw [TextualScopes.nodes_submodule t scope (h.size_eq ▸ old),
        ScopeForest.WellFormed.previous?_submodule scope old,
        ScopeForest.WellFormed.next?_submodule scope old, ScopeForest.definition?_submodule _ old,
        h.previous?_eq old, h.definition?_eq old, h.next?_eq old]
    · have made : x = f.size := by omega
      rw [made, ScopeForest.WellFormed.previous?_submodule_made,
        ScopeForest.WellFormed.next?_submodule_made, ScopeForest.definition?_submodule_made,
        ← h.size_eq]
      exact TextualScopes.nodes_submodule_made t scope

end Represents

/-! ## The way back -/

/-- A path that may start nowhere, and is empty then. -/
def PathFrom (t : TextualScopes) (start : Option Nat) (path : List Nat) : Prop :=
  match start with
  | none => path = []
  | some scope => t.Path scope path

theorem PathFrom.cons {t : TextualScopes} {scope : Nat} {start : Option Nat} {path : List Nat}
    (inside : scope < t.size) (link : t.previous? scope = start) (rest : PathFrom t start path) :
    t.Path scope (scope :: path) := by
  cases start with
  | none =>
    cases rest
    exact .head inside link
  | some before => exact .back link rest

/-- Reading a list backwards follows the links, if they are those of the list. -/
theorem path_backFrom {t : TextualScopes} {scope : Nat} (xs : List Nat) (above : Option Nat)
    (seen beyond : List Nat) (distinct : xs.Nodup)
    (links : ∀ x ∈ xs, x < t.size ∧ t.previous? x = ScopeList.predecessor above x xs)
    (start : PathFrom t above (seen ++ beyond)) {members : List Nat}
    (found : ScopeList.backFrom scope seen xs = some members) :
    t.Path scope (members ++ beyond) := by
  induction xs generalizing above seen with
  | nil => cases found
  | cons y ys ih =>
    obtain ⟨absent, rest⟩ := List.nodup_cons.mp distinct
    obtain ⟨inside, link⟩ := links y List.mem_cons_self
    rw [ScopeList.predecessor, if_pos rfl] at link
    have here : t.Path y (y :: (seen ++ beyond)) := start.cons inside link
    unfold ScopeList.backFrom at found
    split at found
    next same =>
      cases found
      exact same ▸ here
    next other =>
      refine ih (some y) (y :: seen) rest (fun x member => ?_) here found
      obtain ⟨bound, before⟩ := links x (List.mem_cons_of_mem _ member)
      have different : y ≠ x := fun same => absent (same ▸ member)
      rw [ScopeList.predecessor, if_neg different] at before
      exact ⟨bound, before⟩

theorem backFrom_eq_none {scope : Nat} {xs : List Nat} (seen : List Nat) (absent : scope ∉ xs) :
    ScopeList.backFrom scope seen xs = none := by
  induction xs generalizing seen with
  | nil => rfl
  | cons y ys ih =>
    rw [List.mem_cons, not_or] at absent
    rw [ScopeList.backFrom, if_neg (Ne.symm absent.1), ih _ absent.2]

theorem exists_backFrom {scope : Nat} {xs : List Nat} (seen : List Nat) (member : scope ∈ xs) :
    ∃ members, ScopeList.backFrom scope seen xs = some members := by
  induction xs generalizing seen with
  | nil => cases member
  | cons y ys ih =>
    unfold ScopeList.backFrom
    split
    next => exact ⟨_, rfl⟩
    next other =>
      rw [List.mem_cons] at member
      exact ih _ (member.resolve_left (Ne.symm other))

/-- The way back through the lists, newest first, follows the links. -/
theorem path_wayBack {t : TextualScopes} (ls : List ScopeList) (rooted : ScopeForest.Rooted ls)
    (distinct : ∀ l ∈ ls, l.members.Nodup)
    (links : ∀ l ∈ ls, ∀ x ∈ l.members,
      x < t.size ∧ t.previous? x = ScopeList.predecessor l.parent x l.members)
    {scope : Nat} (member : scope ∈ ls.flatMap ScopeList.members) :
    t.Path scope (ScopeForest.wayBack ls scope) := by
  induction ls generalizing scope with
  | nil => cases member
  | cons l older ih =>
    have below (x : Nat) (found : x ∈ older.flatMap ScopeList.members) :
        t.Path x (ScopeForest.wayBack older x) :=
      ih rooted.2 (fun l member => distinct l (List.mem_cons_of_mem _ member))
        (fun l member => links l (List.mem_cons_of_mem _ member)) found
    unfold ScopeForest.wayBack
    by_cases here : scope ∈ l.members
    · obtain ⟨members, found⟩ := exists_backFrom [] here
      rw [found]
      refine path_backFrom l.members l.parent [] _ (distinct l List.mem_cons_self)
        (links l List.mem_cons_self) ?_ found
      cases parent : l.parent with
      | none => rfl
      | some above => exact below above (rooted.1 above parent)
    · rw [backFrom_eq_none [] here]
      rw [List.flatMap_cons, List.mem_append] at member
      exact below scope (member.resolve_left here)

theorem Represents.path {t : TextualScopes} {f : ScopeForest} (h : Represents t f) {scope : Nat}
    (inside : scope < f.size) : t.Path scope (ScopeForest.wayBack f.lists scope) := by
  refine path_wayBack f.lists h.wellFormed.rooted (fun l => h.wellFormed.nodup_members) ?_
    ((h.wellFormed.numbered scope).mpr inside)
  intro l member x found
  have bound := (h.wellFormed.numbered x).mp (List.mem_flatMap.mpr ⟨l, member, found⟩)
  refine ⟨h.size_eq ▸ bound, ?_⟩
  rw [h.previous?_eq bound, ScopeForest.previous?, h.wellFormed.holder?_of_mem member found,
    Option.bind_some]

/-- The definitions met on the way back are those of the lists. -/
theorem Represents.definitionsOn_wayBack {t : TextualScopes} {f : ScopeForest}
    (h : Represents t f) {scope : Nat} (inside : scope < f.size) :
    t.definitionsOn (ScopeForest.wayBack f.lists scope) =
      (ScopeForest.wayBack f.lists scope).filterMap f.definition? := by
  apply List.filterMap_congr
  intro x member
  obtain ⟨_, path, _⟩ := (h.path inside).of_mem member
  exact h.definition?_eq (h.size_eq ▸ path.lt_size)

/-! ## All histories -/

namespace ScopeHistory

theorem size_forest {n : Nat} (history : ScopeHistory n) : history.forest.size = n := by
  induction history with
  | empty => rfl
  | append before scope definition ih => simp [forest, ih]
  | submodule before scope ih => simp [forest, ih]

theorem represents {n : Nat} (history : ScopeHistory n) :
    Represents history.scopes history.forest := by
  induction history with
  | empty => exact .empty
  | append before scope definition ih =>
    exact ih.append definition (before.size_forest.symm ▸ scope.isLt)
  | submodule before scope ih => exact ih.submodule (before.size_forest.symm ▸ scope.isLt)

/-- After any history, each scope is linked to its neighbours in the lists, and a lookup comes to an
end and finds what the lists give. -/
theorem scopes_refine_forest {n : Nat} (history : ScopeHistory n) (scope : Fin n) :
    history.scopes.size = n ∧
      history.scopes.nodes[scope.val]? =
        some ⟨history.forest.previous? scope, history.forest.definition? scope,
          history.forest.next? scope⟩ ∧
      ∀ name,
        history.scopes.Ends name scope (history.forest.lookup scope name) ∧
        history.scopes.lookup scope name = history.forest.lookup scope name := by
  have h := history.represents
  have inside : scope.val < history.forest.size := history.size_forest.symm ▸ scope.isLt
  refine ⟨h.size_eq.trans history.size_forest, h.nodes_eq scope inside, fun name => ?_⟩
  unfold ScopeForest.lookup
  rw [← h.definitionsOn_wayBack inside]
  exact ⟨TextualScopes.ends_of_path name (h.path inside),
    TextualScopes.lookup_of_path name (h.path inside)⟩

/-- What is put in front of a scope later on is seen from it. -/
example :
    let d : MacroDefinition := ⟨⟨"m"⟩, "macro_rules! m {}", .fake⟩
    let history := (empty.append 0 none).append 0 (some d)
    history.scopes.previous? 1 = some 2 ∧ history.scopes.lookup 1 ⟨"m"⟩ = some d := by
  decide

end ScopeHistory

end MacroExpansion
