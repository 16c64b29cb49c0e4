import Mathlib.Data.List.Perm.Subperm
import Mathlib.Data.List.Range
import MacroExpansion.Tree.TextualScope

/-!
# The way back through textual scopes

`Path t scope path` says that following the scopes back from `scope` comes to an end and visits
`path`. A scope has one path at most, which visits no scope twice; so a lookup that may take as many
steps as there are scopes reads the whole of it. What `append` and `submodule` do to the links is
stated for all scopes that exist.
-/
namespace MacroExpansion.TextualScopes

/-- The scope that the way back goes on with. -/
def previous? (t : TextualScopes) (scope : Nat) : Option Nat :=
  t.nodes[scope]?.bind TextualNode.previous

/-- The definition that a scope holds. -/
def definition? (t : TextualScopes) (scope : Nat) : Option MacroDefinition :=
  t.nodes[scope]?.bind TextualNode.definition

/-- The definition that a scope holds, if it has the name. -/
def named? (t : TextualScopes) (name : Ident) (scope : Nat) : Option MacroDefinition :=
  (t.definition? scope).filter fun d => d.name = name

/-- The scopes that the way back from a scope visits, itself first. -/
inductive Path (t : TextualScopes) : Nat → List Nat → Prop
  | head {scope : Nat} (inside : scope < t.size) (first : t.previous? scope = none) :
      Path t scope [scope]
  | back {scope before : Nat} {path : List Nat} (link : t.previous? scope = some before)
      (rest : Path t before path) : Path t scope (scope :: path)

/-- The way back for a name comes to its end, however many steps it may take, and gives a result. -/
inductive Ends (t : TextualScopes) (name : Ident) : Nat → Option MacroDefinition → Prop
  | found {scope : Nat} {d : MacroDefinition} (holds : t.named? name scope = some d) :
      Ends t name scope (some d)
  | head {scope : Nat} (inside : scope < t.size) (other : t.named? name scope = none)
      (first : t.previous? scope = none) : Ends t name scope none
  | back {scope before : Nat} {result : Option MacroDefinition}
      (other : t.named? name scope = none) (link : t.previous? scope = some before)
      (rest : Ends t name before result) : Ends t name scope result

variable {t : TextualScopes}

theorem lt_size_of_previous? {scope before : Nat} (link : t.previous? scope = some before) :
    scope < t.size := by
  unfold previous? at link
  cases found : t.nodes[scope]? with
  | none => simp [found] at link
  | some node => exact (Array.getElem?_eq_some_iff.mp found).1

namespace Path

theorem lt_size {scope : Nat} {path : List Nat} (h : Path t scope path) : scope < t.size := by
  cases h with
  | head inside _ => exact inside
  | back link _ => exact lt_size_of_previous? link

theorem unique {scope : Nat} {path other : List Nat} (h : Path t scope path)
    (k : Path t scope other) : path = other := by
  induction h generalizing other with
  | head _ first =>
    cases k with
    | head _ _ => rfl
    | back link _ => rw [first] at link; cases link
  | back link _ ih =>
    cases k with
    | head _ first => rw [first] at link; cases link
    | back link' rest =>
      rw [link] at link'
      cases link'
      rw [ih rest]

/-- The path of a visited scope is the end of the path that visits it. -/
theorem of_mem {scope visited : Nat} {path : List Nat} (h : Path t scope path)
    (member : visited ∈ path) : ∃ rest, Path t visited rest ∧ rest <:+ path := by
  induction h with
  | head inside first =>
    cases List.mem_singleton.mp member
    exact ⟨_, .head inside first, List.suffix_refl _⟩
  | back link rest ih =>
    rcases List.mem_cons.mp member with rfl | later
    · exact ⟨_, .back link rest, List.suffix_refl _⟩
    · obtain ⟨tail, path, suffix⟩ := ih later
      exact ⟨tail, path, suffix.trans (List.suffix_cons _ _)⟩

theorem nodup {scope : Nat} {path : List Nat} (h : Path t scope path) : path.Nodup := by
  induction h with
  | head _ _ => simp
  | @back scope before path link rest ih =>
    refine List.nodup_cons.mpr ⟨fun member => ?_, ih⟩
    -- a second visit would have the whole path as a proper part of itself
    obtain ⟨tail, again, suffix⟩ := rest.of_mem member
    have same : tail = scope :: path := again.unique (.back link rest)
    have shorter := suffix.length_le
    rw [same, List.length_cons] at shorter
    omega

theorem length_le {scope : Nat} {path : List Nat} (h : Path t scope path) :
    path.length ≤ t.size := by
  have inside : path ⊆ List.range t.size := fun visited member => by
    obtain ⟨_, sub, _⟩ := h.of_mem member
    exact List.mem_range.mpr sub.lt_size
  simpa using (List.subperm_of_subset h.nodup inside).length_le

end Path

theorem lookupWithin_succ (t : TextualScopes) (name : Ident) (steps : Nat) {scope : Nat}
    (inside : scope < t.size) :
    t.lookupWithin name (steps + 1) scope =
      (t.named? name scope).or ((t.previous? scope).bind (t.lookupWithin name steps)) := by
  have found : t.nodes[scope]? = some t.nodes[scope] := Array.getElem?_eq_getElem inside
  rw [lookupWithin]
  simp only [named?, definition?, previous?, found, Option.bind_some]
  split
  next found => rw [found, Option.some_or]
  next found => rw [found, Option.none_or]

/-- The definitions that the scopes of a path hold, the nearest first. -/
def definitionsOn (t : TextualScopes) (path : List Nat) : List MacroDefinition :=
  path.filterMap t.definition?

theorem find?_definitionsOn_cons (t : TextualScopes) (name : Ident) (scope : Nat)
    (path : List Nat) :
    (t.definitionsOn (scope :: path)).find? (fun d => d.name = name) =
      (t.named? name scope).or ((t.definitionsOn path).find? fun d => d.name = name) := by
  unfold definitionsOn named?
  cases holds : t.definition? scope with
  | none => rw [List.filterMap_cons_none holds, Option.filter_none, Option.none_or]
  | some d =>
    rw [List.filterMap_cons_some holds, List.find?_cons]
    by_cases same : d.name = name <;> simp [Option.filter, same]

theorem lookupWithin_of_path (name : Ident) {scope : Nat} {path : List Nat}
    (h : Path t scope path) (steps : Nat) (enough : path.length ≤ steps) :
    t.lookupWithin name steps scope = (t.definitionsOn path).find? fun d => d.name = name := by
  induction h generalizing steps with
  | head inside first =>
    obtain ⟨left, rfl⟩ : ∃ left, steps = left + 1 := ⟨steps - 1, by simp at enough; omega⟩
    rw [lookupWithin_succ t name left inside, first, find?_definitionsOn_cons]
    rfl
  | back link rest ih =>
    obtain ⟨left, rfl⟩ : ∃ left, steps = left + 1 := ⟨steps - 1, by simp at enough; omega⟩
    rw [lookupWithin_succ t name left (lt_size_of_previous? link), link, Option.bind_some,
      ih left (by simpa using enough), find?_definitionsOn_cons]

/-- The bound on the steps of a lookup is never what ends it. -/
theorem lookup_of_path (name : Ident) {scope : Nat} {path : List Nat} (h : Path t scope path) :
    t.lookup scope name = (t.definitionsOn path).find? fun d => d.name = name :=
  lookupWithin_of_path name h t.size h.length_le

theorem ends_of_path (name : Ident) {scope : Nat} {path : List Nat} (h : Path t scope path) :
    Ends t name scope ((t.definitionsOn path).find? fun d => d.name = name) := by
  induction h with
  | @head scope inside first =>
    rw [find?_definitionsOn_cons]
    cases holds : t.named? name scope with
    | some d => exact .found holds
    | none => exact .head inside holds first
  | @back scope before path link rest ih =>
    rw [find?_definitionsOn_cons]
    cases holds : t.named? name scope with
    | some d => exact .found holds
    | none => exact .back holds link ih

/-! ## What the operations do to the links -/

variable (t) (scope : Nat) (definition : Option MacroDefinition)

/-- The scope that followed is linked back to the new one, and `scope` is linked on to it. -/
theorem nodes_append {x : Nat} (inside : x < t.size) :
    (t.append scope definition).1.nodes[x]? =
      some ⟨if t.next? scope = some x then some t.size else t.previous? x, t.definition? x,
        if x = scope then some t.size else t.next? x⟩ := by
  have found : t.nodes[x]? = some t.nodes[x] := Array.getElem?_eq_getElem inside
  have old : x ≠ t.nodes.size := Nat.ne_of_lt inside
  unfold append
  cases following : t.next? scope with
  | none =>
    by_cases same : x = scope
    · subst same
      simp [Array.getElem?_push, Array.getElem?_modify, old, found, previous?, definition?, size]
    · simp [Array.getElem?_push, Array.getElem?_modify, old, found, previous?, definition?, same,
        Ne.symm same, next?]
  | some after =>
    by_cases same : x = scope
    · subst same
      by_cases target : after = x <;>
        simp [Array.getElem?_push, Array.getElem?_modify, old, found, previous?, definition?, size,
          target]
    · by_cases target : after = x <;>
        simp [Array.getElem?_push, Array.getElem?_modify, old, found, previous?, definition?, same,
          Ne.symm same, size, target, next?]

theorem nodes_append_made :
    (t.append scope definition).1.nodes[t.size]? =
      some ⟨some scope, definition, t.next? scope⟩ := by
  unfold append size
  cases t.next? scope <;> rw [Array.getElem?_push, if_pos (by simp)]

theorem nodes_submodule {x : Nat} (inside : x < t.size) :
    (t.submodule scope).1.nodes[x]? = some ⟨t.previous? x, t.definition? x, t.next? x⟩ := by
  have found : t.nodes[x]? = some t.nodes[x] := Array.getElem?_eq_getElem inside
  have old : x ≠ t.nodes.size := Nat.ne_of_lt inside
  simp [submodule, Array.getElem?_push, old, found, previous?, definition?, next?]

theorem nodes_submodule_made :
    (t.submodule scope).1.nodes[t.size]? = some ⟨some scope, none, none⟩ := by
  simp [submodule, size]

end MacroExpansion.TextualScopes
