import Mathlib.Data.List.Find
import Mathlib.Data.List.Nodup
import MacroExpansion.Proofs.TextualScope.Path

/-!
# Textual scopes as ordered lists

The linked scopes stand for a forest: every scope has its place in one ordered list, and every list
but the first hangs below the scope it was started at. `append` inserts into a list, `submodule`
starts one. The forest has no links: what comes before and after a scope is read off the lists, and
a lookup reads a list backwards to its head and goes on at the scope above. Main statements: both
operations keep a forest well-formed, and change the neighbours of a scope as relinking would.
-/
namespace MacroExpansion

/-- Textual scopes in their order. -/
structure ScopeList where
  /-- The scope that the list hangs below. -/
  parent : Option Nat
  members : List Nat
  deriving DecidableEq, Repr

namespace ScopeList

/-- Puts `made` directly after `scope`. -/
def insertAfter (scope made : Nat) : List Nat → List Nat
  | [] => []
  | x :: xs => if x = scope then x :: made :: xs else x :: insertAfter scope made xs

/-- The element in front of `scope`, which is `above` for the first one. -/
def predecessor (above : Option Nat) (scope : Nat) : List Nat → Option Nat
  | [] => none
  | x :: xs => if x = scope then above else predecessor (some x) scope xs

/-- The element after `scope`. -/
def successor (scope : Nat) : List Nat → Option Nat
  | [] => none
  | x :: xs => if x = scope then xs.head? else successor scope xs

/-- The elements from `scope` back to the first one, and then those of `seen`. -/
def backFrom (scope : Nat) (seen : List Nat) : List Nat → Option (List Nat)
  | [] => none
  | x :: xs => if x = scope then some (x :: seen) else backFrom scope (x :: seen) xs

/-- The list with `made` directly after `scope`, if it has that scope. -/
def insert (l : ScopeList) (scope made : Nat) : ScopeList :=
  { l with members := insertAfter scope made l.members }

theorem mem_insertAfter {scope made x : Nat} {xs : List Nat} :
    x ∈ insertAfter scope made xs ↔ x ∈ xs ∨ (x = made ∧ scope ∈ xs) := by
  induction xs with
  | nil => simp [insertAfter]
  | cons y ys ih =>
    by_cases same : y = scope
    · simp [insertAfter, same]
      grind
    · simp [insertAfter, same, ih, Ne.symm same]
      grind

theorem head?_insertAfter (scope made : Nat) (xs : List Nat) :
    (insertAfter scope made xs).head? = xs.head? := by
  cases xs with
  | nil => rfl
  | cons y ys =>
    unfold insertAfter
    split <;> rfl

theorem insertAfter_of_notMem {scope made : Nat} {xs : List Nat} (absent : scope ∉ xs) :
    insertAfter scope made xs = xs := by
  induction xs with
  | nil => rfl
  | cons y ys ih =>
    rw [List.mem_cons, not_or] at absent
    rw [insertAfter, if_neg (Ne.symm absent.1), ih absent.2]

theorem mem_of_successor {scope x : Nat} {xs : List Nat} (h : successor scope xs = some x) :
    x ∈ xs := by
  induction xs with
  | nil => cases h
  | cons y ys ih =>
    unfold successor at h
    split at h
    · exact List.mem_cons_of_mem _ (List.mem_of_head? h)
    · exact List.mem_cons_of_mem _ (ih h)

/-- What stands above a list matters to its first element only. -/
theorem predecessor_above (above other : Option Nat) {x : Nat} {xs : List Nat} (member : x ∈ xs) :
    predecessor above x xs = if xs.head? = some x then above else predecessor other x xs := by
  cases xs with
  | nil => cases member
  | cons y ys =>
    by_cases same : y = x <;> simp [predecessor, same]

theorem predecessor_insertAfter (above : Option Nat) {scope made x : Nat} {xs : List Nat}
    (distinct : xs.Nodup) (member : x ∈ xs) (old : x ≠ made) :
    predecessor above x (insertAfter scope made xs) =
      if successor scope xs = some x then some made else predecessor above x xs := by
  induction xs generalizing above with
  | nil => cases member
  | cons y ys ih =>
    obtain ⟨fresh, rest⟩ := List.nodup_cons.mp distinct
    by_cases here : y = scope
    · subst here
      by_cases same : y = x
      · subst same
        have other : ys.head? ≠ some y := fun first => fresh (List.mem_of_head? first)
        simp [insertAfter, predecessor, successor, other]
      · have later : x ∈ ys := by simpa [Ne.symm same] using member
        simp only [insertAfter, predecessor, successor, if_true, if_neg same, if_neg (Ne.symm old)]
        exact predecessor_above (some made) (some y) later
    · by_cases same : y = x
      · subst same
        have other : successor scope ys ≠ some y := fun next => fresh (mem_of_successor next)
        simp [insertAfter, predecessor, successor, here, other]
      · have later : x ∈ ys := by simpa [Ne.symm same] using member
        simpa [insertAfter, predecessor, successor, here, same] using ih (some y) rest later

theorem predecessor_insertAfter_made (above : Option Nat) {scope made : Nat} {xs : List Nat}
    (member : scope ∈ xs) (fresh : made ∉ xs) :
    predecessor above made (insertAfter scope made xs) = some scope := by
  induction xs generalizing above with
  | nil => cases member
  | cons y ys ih =>
    rw [List.mem_cons, not_or] at fresh
    by_cases here : y = scope
    · subst here
      simp [insertAfter, predecessor, Ne.symm fresh.1]
    · have later : scope ∈ ys := by simpa [Ne.symm here] using member
      simpa [insertAfter, predecessor, here, Ne.symm fresh.1] using ih (some y) later fresh.2

theorem successor_insertAfter {scope made x : Nat} {xs : List Nat} (member : x ∈ xs)
    (old : x ≠ made) :
    successor x (insertAfter scope made xs) =
      if x = scope then some made else successor x xs := by
  induction xs with
  | nil => cases member
  | cons y ys ih =>
    by_cases here : y = scope
    · subst here
      by_cases same : y = x
      · simp [insertAfter, successor, same]
      · simp [insertAfter, successor, same, Ne.symm same, Ne.symm old]
    · by_cases same : y = x
      · subst same
        simp [insertAfter, successor, here, head?_insertAfter]
      · have later : x ∈ ys := by simpa [Ne.symm same] using member
        simpa [insertAfter, successor, here, same] using ih later

theorem nodup_insertAfter {scope made : Nat} {xs : List Nat} (distinct : xs.Nodup)
    (fresh : made ∉ xs) : (insertAfter scope made xs).Nodup := by
  induction xs with
  | nil => exact distinct
  | cons y ys ih =>
    obtain ⟨absent, rest⟩ := List.nodup_cons.mp distinct
    rw [List.mem_cons, not_or] at fresh
    unfold insertAfter
    split
    · simp [absent, rest, fresh.2, Ne.symm fresh.1]
    · refine List.nodup_cons.mpr ⟨?_, ih rest fresh.2⟩
      rw [mem_insertAfter]
      rintro (old | ⟨same, _⟩)
      · exact absent old
      · exact fresh.1 same.symm

theorem successor_insertAfter_made {scope made : Nat} {xs : List Nat} (member : scope ∈ xs)
    (fresh : made ∉ xs) :
    successor made (insertAfter scope made xs) = successor scope xs := by
  induction xs with
  | nil => cases member
  | cons y ys ih =>
    rw [List.mem_cons, not_or] at fresh
    by_cases here : y = scope
    · subst here
      simp [insertAfter, successor, Ne.symm fresh.1]
    · have later : scope ∈ ys := by simpa [Ne.symm here] using member
      simpa [insertAfter, successor, here, Ne.symm fresh.1] using ih later fresh.2

end ScopeList

/-- Ordered lists of textual scopes, and what each scope holds. The number of a scope is the place
of its definition. -/
structure ScopeForest where
  /-- The newest list first. -/
  lists : List ScopeList
  definitions : List (Option MacroDefinition)
  deriving DecidableEq, Repr

namespace ScopeForest

def empty : ScopeForest :=
  ⟨[⟨none, [0]⟩], [none]⟩

def size (f : ScopeForest) : Nat :=
  f.definitions.length

/-- Puts a new scope directly after `scope` in the list of that. -/
def append (f : ScopeForest) (scope : Nat) (definition : Option MacroDefinition) : ScopeForest :=
  ⟨f.lists.map fun l => l.insert scope f.size, f.definitions ++ [definition]⟩

/-- Starts a list below `scope`. -/
def submodule (f : ScopeForest) (scope : Nat) : ScopeForest :=
  ⟨⟨some scope, [f.size]⟩ :: f.lists, f.definitions ++ [none]⟩

/-- The list that has a scope. -/
def holder? (f : ScopeForest) (scope : Nat) : Option ScopeList :=
  f.lists.find? fun l => scope ∈ l.members

/-- The scope in front of a scope in its list; at the head, the one that the list hangs below. -/
def previous? (f : ScopeForest) (scope : Nat) : Option Nat :=
  (f.holder? scope).bind fun l => ScopeList.predecessor l.parent scope l.members

/-- The scope after a scope in its list. -/
def next? (f : ScopeForest) (scope : Nat) : Option Nat :=
  (f.holder? scope).bind fun l => ScopeList.successor scope l.members

def definition? (f : ScopeForest) (scope : Nat) : Option MacroDefinition :=
  f.definitions[scope]?.join

/-- From a scope back to the head of its list, and on from the scope that the list hangs below. That
scope is in an older list. -/
def wayBack : List ScopeList → Nat → List Nat
  | [], _ => []
  | l :: older, scope =>
    match ScopeList.backFrom scope [] l.members with
    | none => wayBack older scope
    | some members => members ++ (l.parent.map (wayBack older)).getD []

/-- The first definition of `name` on the way back from a scope. -/
def lookup (f : ScopeForest) (scope : Nat) (name : Ident) : Option MacroDefinition :=
  ((wayBack f.lists scope).filterMap f.definition?).find? fun d => d.name = name

/-- Every list hangs below a scope of an older one, or below none. -/
def Rooted : List ScopeList → Prop
  | [] => True
  | l :: older => (∀ above, l.parent = some above → above ∈ older.flatMap ScopeList.members) ∧
    Rooted older

structure WellFormed (f : ScopeForest) : Prop where
  distinct : (f.lists.flatMap ScopeList.members).Nodup
  numbered : ∀ x, x ∈ f.lists.flatMap ScopeList.members ↔ x < f.size
  rooted : Rooted f.lists

variable {f : ScopeForest}

@[simp] theorem size_append (scope : Nat) (definition : Option MacroDefinition) :
    (f.append scope definition).size = f.size + 1 := by
  simp [append, size]

@[simp] theorem size_submodule (scope : Nat) : (f.submodule scope).size = f.size + 1 := by
  simp [submodule, size]

theorem definition?_append (scope : Nat) (definition : Option MacroDefinition) {x : Nat}
    (inside : x < f.size) : (f.append scope definition).definition? x = f.definition? x := by
  simp [append, definition?, List.getElem?_append_left inside]

theorem definition?_append_made (scope : Nat) (definition : Option MacroDefinition) :
    (f.append scope definition).definition? f.size = definition := by
  simp [append, definition?, size]

theorem definition?_submodule (scope : Nat) {x : Nat} (inside : x < f.size) :
    (f.submodule scope).definition? x = f.definition? x := by
  simp [submodule, definition?, List.getElem?_append_left inside]

theorem definition?_submodule_made (scope : Nat) :
    (f.submodule scope).definition? f.size = none := by
  simp [submodule, definition?, size]

namespace WellFormed

theorem empty : ScopeForest.empty.WellFormed where
  distinct := by decide
  numbered := by simp [ScopeForest.empty, size]
  rooted := ⟨by simp, trivial⟩

variable (h : f.WellFormed)
include h

theorem nodup_members {l : ScopeList} (member : l ∈ f.lists) : l.members.Nodup :=
  (List.nodup_flatMap.mp h.distinct).1 l member

theorem size_notMem {l : ScopeList} (member : l ∈ f.lists) : f.size ∉ l.members := by
  intro found
  have := (h.numbered f.size).mp (List.mem_flatMap.mpr ⟨l, member, found⟩)
  omega

theorem exists_holder {x : Nat} (inside : x < f.size) :
    ∃ l ∈ f.lists, x ∈ l.members ∧ f.holder? x = some l := by
  obtain ⟨l, member, found⟩ := List.mem_flatMap.mp ((h.numbered x).mpr inside)
  have present : (f.holder? x).isSome := by
    simpa [holder?] using ⟨l, member, found⟩
  obtain ⟨holder, holds⟩ := Option.isSome_iff_exists.mp present
  exact ⟨holder, List.mem_of_find?_eq_some holds, by simpa using List.find?_some holds, holds⟩

/-- A scope is in one list only. -/
theorem holder?_of_mem {l : ScopeList} (member : l ∈ f.lists) {x : Nat} (found : x ∈ l.members) :
    f.holder? x = some l := by
  obtain ⟨other, otherMember, otherFound, holds⟩ :=
    h.exists_holder ((h.numbered x).mp (List.mem_flatMap.mpr ⟨l, member, found⟩))
  have symmetric : Std.Symm (Function.onFun List.Disjoint ScopeList.members) :=
    ⟨fun _ _ disjoint => List.disjoint_symm disjoint⟩
  have apart := (List.nodup_flatMap.mp h.distinct).2
  have same : other = l := by
    by_contra different
    exact apart.forall otherMember member different otherFound found
  rw [holds, same]

omit h in
theorem holder?_append (scope : Nat) (definition : Option MacroDefinition) {x : Nat}
    (inside : x < f.size) :
    (f.append scope definition).holder? x = (f.holder? x).map fun l => l.insert scope f.size := by
  have same (l : ScopeList) : x ∈ (l.insert scope f.size).members ↔ x ∈ l.members := by
    have old : x ≠ f.size := by omega
    simp [ScopeList.insert, ScopeList.mem_insertAfter, old]
  simp only [ScopeForest.append, holder?, List.find?_map, Function.comp_def, same]

theorem holder?_append_made (scope : Nat) (definition : Option MacroDefinition) :
    (f.append scope definition).holder? f.size =
      (f.holder? scope).map fun l => l.insert scope f.size := by
  unfold ScopeForest.append holder?
  rw [List.find?_map]
  congr 1
  apply List.find?_congr
  intro l member
  simp [ScopeList.insert, ScopeList.mem_insertAfter, h.size_notMem member]

theorem previous?_append (scope : Nat) (definition : Option MacroDefinition) {x : Nat}
    (inside : x < f.size) :
    (f.append scope definition).previous? x =
      if f.next? scope = some x then some f.size else f.previous? x := by
  obtain ⟨l, member, found, holds⟩ := h.exists_holder inside
  have old : x ≠ f.size := by omega
  simp only [previous?, holder?_append scope definition inside, holds, Option.map_some,
    Option.bind_some, ScopeList.insert]
  by_cases here : scope ∈ l.members
  · rw [ScopeList.predecessor_insertAfter l.parent (h.nodup_members member) found old, next?,
      h.holder?_of_mem member here, Option.bind_some]
  · -- what follows `scope` is in the list of `scope`, and `x` is not
    have other : f.next? scope ≠ some x := by
      intro next
      obtain ⟨list, holder, follows⟩ := Option.bind_eq_some_iff.mp next
      have listMember := List.mem_of_find?_eq_some holder
      have same : some list = some l := by
        rw [← holds, h.holder?_of_mem listMember (ScopeList.mem_of_successor follows)]
      cases same
      exact here (by simpa using List.find?_some holder)
    rw [if_neg other, ScopeList.insertAfter_of_notMem here]

theorem previous?_append_made {scope : Nat} (definition : Option MacroDefinition)
    (inside : scope < f.size) : (f.append scope definition).previous? f.size = some scope := by
  obtain ⟨l, member, found, holds⟩ := h.exists_holder inside
  simp only [previous?, h.holder?_append_made, holds, Option.map_some, Option.bind_some,
    ScopeList.insert]
  exact ScopeList.predecessor_insertAfter_made _ found (h.size_notMem member)

theorem next?_append (scope : Nat) (definition : Option MacroDefinition) {x : Nat}
    (inside : x < f.size) :
    (f.append scope definition).next? x =
      if x = scope then some f.size else f.next? x := by
  obtain ⟨l, member, found, holds⟩ := h.exists_holder inside
  have old : x ≠ f.size := by omega
  simp only [next?, holder?_append scope definition inside, holds, Option.map_some,
    Option.bind_some, ScopeList.insert]
  exact ScopeList.successor_insertAfter found old

theorem next?_append_made {scope : Nat} (definition : Option MacroDefinition)
    (inside : scope < f.size) : (f.append scope definition).next? f.size = f.next? scope := by
  obtain ⟨l, member, found, holds⟩ := h.exists_holder inside
  simp only [next?, h.holder?_append_made, holds, Option.map_some, Option.bind_some,
    ScopeList.insert]
  exact ScopeList.successor_insertAfter_made found (h.size_notMem member)

omit h in
theorem previous?_submodule (scope : Nat) {x : Nat} (inside : x < f.size) :
    (f.submodule scope).previous? x = f.previous? x := by
  have old : x ≠ f.size := by omega
  simp [ScopeForest.submodule, previous?, holder?, old]

omit h in
theorem previous?_submodule_made (scope : Nat) :
    (f.submodule scope).previous? f.size = some scope := by
  simp [ScopeForest.submodule, previous?, holder?, ScopeList.predecessor]

omit h in
theorem next?_submodule (scope : Nat) {x : Nat} (inside : x < f.size) :
    (f.submodule scope).next? x = f.next? x := by
  have old : x ≠ f.size := by omega
  simp [ScopeForest.submodule, next?, holder?, old]

omit h in
theorem next?_submodule_made (scope : Nat) : (f.submodule scope).next? f.size = none := by
  simp [ScopeForest.submodule, next?, holder?, ScopeList.successor]

omit h in
theorem mem_append {scope made x : Nat} {ls : List ScopeList} :
    x ∈ (ls.map fun l => l.insert scope made).flatMap ScopeList.members ↔
      x ∈ ls.flatMap ScopeList.members ∨ (x = made ∧ scope ∈ ls.flatMap ScopeList.members) := by
  simp only [List.mem_flatMap, List.mem_map, ScopeList.insert]
  constructor
  · rintro ⟨_, ⟨l, member, rfl⟩, found⟩
    rcases ScopeList.mem_insertAfter.mp found with old | ⟨same, here⟩
    · exact Or.inl ⟨l, member, old⟩
    · exact Or.inr ⟨same, l, member, here⟩
  · rintro (⟨l, member, old⟩ | ⟨same, l, member, here⟩)
    · exact ⟨_, ⟨l, member, rfl⟩, ScopeList.mem_insertAfter.mpr (Or.inl old)⟩
    · exact ⟨_, ⟨l, member, rfl⟩, ScopeList.mem_insertAfter.mpr (Or.inr ⟨same, here⟩)⟩

omit h in
theorem rooted_append {scope made : Nat} {ls : List ScopeList} (rooted : Rooted ls) :
    Rooted (ls.map fun l => l.insert scope made) := by
  induction ls with
  | nil => trivial
  | cons l older ih =>
    refine ⟨fun above parent => ?_, ih rooted.2⟩
    exact mem_append.mpr (Or.inl (rooted.1 above parent))

theorem append {scope : Nat} (definition : Option MacroDefinition) (inside : scope < f.size) :
    (f.append scope definition).WellFormed where
  distinct := by
    obtain ⟨each, apart⟩ := List.nodup_flatMap.mp h.distinct
    refine List.nodup_flatMap.mpr ⟨?_, ?_⟩
    · intro made member
      obtain ⟨l, old, rfl⟩ := List.mem_map.mp member
      exact ScopeList.nodup_insertAfter (each l old) (h.size_notMem old)
    · refine List.pairwise_map.mpr (apart.imp_of_mem ?_)
      intro a b aMember bMember disjoint x inA inB
      rcases ScopeList.mem_insertAfter.mp inA with oldA | ⟨same, hereA⟩ <;>
        rcases ScopeList.mem_insertAfter.mp inB with oldB | ⟨same', hereB⟩
      · exact disjoint oldA oldB
      · exact h.size_notMem aMember (same' ▸ oldA)
      · exact h.size_notMem bMember (same ▸ oldB)
      · exact disjoint hereA hereB
  numbered x := by
    have here := (h.numbered scope).mpr inside
    rw [size_append, ScopeForest.append, mem_append, h.numbered x]
    constructor
    · rintro (old | ⟨same, _⟩) <;> omega
    · intro bound
      by_cases old : x < f.size
      · exact Or.inl old
      · exact Or.inr ⟨by omega, here⟩
  rooted := rooted_append h.rooted

theorem submodule {scope : Nat} (inside : scope < f.size) : (f.submodule scope).WellFormed where
  distinct := by
    have fresh : f.size ∉ f.lists.flatMap ScopeList.members := fun found =>
      Nat.lt_irrefl _ ((h.numbered f.size).mp found)
    simpa [ScopeForest.submodule] using And.intro (by simpa using fresh) h.distinct
  numbered x := by
    rw [size_submodule, ScopeForest.submodule, List.flatMap_cons, List.mem_append, h.numbered x,
      List.mem_singleton]
    omega
  rooted := by
    refine ⟨fun above parent => ?_, h.rooted⟩
    cases parent
    exact (h.numbered scope).mpr inside

end WellFormed

end ScopeForest

end MacroExpansion
