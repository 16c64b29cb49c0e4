import MacroExpansion.Proofs.TextualScope.Path

/-!
# What a scope goes on to see

Appending changes the way back from the scopes that come after the new one, and from no others. So
as long as scopes are appended only where nothing in use comes after, every scope in use goes on to
see the same definitions. Scopes that nothing uses are left out of account: one that was made for an
invocation which was then left out stays in its list.
-/
namespace MacroExpansion.TextualScopes

/-- The definitions that are seen from a scope, the nearest first. -/
def Sees (t : TextualScopes) (scope : Nat) (definitions : List MacroDefinition) : Prop :=
  ∃ path, t.Path scope path ∧ t.definitionsOn path = definitions

/-- The way back from a scope in use visits scopes in use, and no link leads on to a scope that is
not there. -/
structure Kept (t : TextualScopes) (used : Nat → Prop) : Prop where
  path : ∀ x, used x → ∃ path, t.Path x path ∧ ∀ y ∈ path, used y
  next : ∀ x y, t.next? x = some y → y < t.size

/-- A scope in use that no scope in use follows. -/
structure Open (t : TextualScopes) (used : Nat → Prop) (scope : Nat) : Prop where
  inUse : used scope
  next : ∀ y, t.next? scope = some y → ¬ used y

/-- More scopes are there and in use, put after `origin` and after new ones only. -/
structure Grows (origin : Nat) (t : TextualScopes) (used : Nat → Prop) (t' : TextualScopes)
    (used' : Nat → Prop) : Prop where
  size : t.size ≤ t'.size
  older : ∀ x, used x → used' x
  newer : ∀ x, used' x → used x ∨ t.size ≤ x
  sees : ∀ x definitions, used x → t.Sees x definitions → t'.Sees x definitions
  next : ∀ x, x < t.size → x ≠ origin → t'.next? x = t.next? x

variable {t t' t'' : TextualScopes} {used used' used'' : Nat → Prop} {origin scope : Nat}

theorem Sees.lookup {definitions : List MacroDefinition} (h : t.Sees scope definitions)
    (name : Ident) : t.lookup scope name = definitions.find? fun d => d.name = name := by
  obtain ⟨path, back, rfl⟩ := h
  exact lookup_of_path name back

theorem Sees.unique {definitions others : List MacroDefinition} (h : t.Sees scope definitions)
    (k : t.Sees scope others) : definitions = others := by
  obtain ⟨path, back, rfl⟩ := h
  obtain ⟨other, again, rfl⟩ := k
  rw [back.unique again]

theorem Kept.lt_size (h : Kept t used) {x : Nat} (inUse : used x) : x < t.size := by
  obtain ⟨_, back, _⟩ := h.path x inUse
  exact back.lt_size

theorem Grows.refl (origin : Nat) (t : TextualScopes) (used : Nat → Prop) :
    Grows origin t used t used where
  size := Nat.le_refl _
  older := fun _ inUse => inUse
  newer := fun _ inUse => Or.inl inUse
  sees := fun _ _ _ seen => seen
  next := fun _ _ _ => rfl

/-- What goes on does so from the same scope, or from a scope made on the way. -/
theorem Grows.trans {later : Nat} (h : Grows origin t used t' used')
    (k : Grows later t' used' t'' used'') (starts : later = origin ∨ t.size ≤ later) :
    Grows origin t used t'' used'' where
  size := h.size.trans k.size
  older := fun x inUse => k.older x (h.older x inUse)
  newer := fun x inUse => by
    rcases k.newer x inUse with before | made
    · exact h.newer x before
    · exact Or.inr (h.size.trans made)
  sees := fun x definitions inUse seen =>
    k.sees x definitions (h.older x inUse) (h.sees x definitions inUse seen)
  next := fun x inside other => by
    rw [k.next x (Nat.lt_of_lt_of_le inside h.size) (by omega), h.next x inside other]

/-- What a scope in use sees later on it has seen before. -/
theorem Grows.seen {definitions : List MacroDefinition} (g : Grows origin t used t' used')
    (kept : Kept t used) {x : Nat} (inUse : used x) (sees : t'.Sees x definitions) :
    t.Sees x definitions := by
  obtain ⟨path, back, _⟩ := kept.path x inUse
  have before : t.Sees x (t.definitionsOn path) := ⟨path, back, rfl⟩
  rwa [sees.unique (g.sees x _ inUse before)]

/-- A scope stays open while others are appended to. -/
theorem Open.grows (h : Open t used scope) (kept : Kept t used) (g : Grows origin t used t' used')
    (other : scope ≠ origin) : Open t' used' scope where
  inUse := g.older scope h.inUse
  next := fun y link inUse => by
    rw [g.next scope (kept.lt_size h.inUse) other] at link
    rcases g.newer y inUse with before | made
    · exact h.next y link before
    · exact Nat.not_lt_of_le made (kept.next scope y link)

/-! ## What the operations do -/

theorem lt_size_of_next? {x y : Nat} (link : t.next? x = some y) : x < t.size := by
  unfold next? at link
  cases found : t.nodes[x]? with
  | none => simp [found] at link
  | some node => exact (Array.getElem?_eq_some_iff.mp found).1

section

variable (t) (scope : Nat) (definition : Option MacroDefinition)

theorem definition?_append {x : Nat} (inside : x < t.size) :
    (t.append scope definition).1.definition? x = t.definition? x := by
  rw [definition?, nodes_append t scope definition inside, Option.bind_some]

theorem definition?_append_made :
    (t.append scope definition).1.definition? t.size = definition := by
  rw [definition?, nodes_append_made, Option.bind_some]

theorem previous?_append {x : Nat} (inside : x < t.size) (other : t.next? scope ≠ some x) :
    (t.append scope definition).1.previous? x = t.previous? x := by
  rw [previous?, nodes_append t scope definition inside, Option.bind_some, if_neg other]

theorem previous?_append_made : (t.append scope definition).1.previous? t.size = some scope := by
  rw [previous?, nodes_append_made, Option.bind_some]

theorem next?_append {x : Nat} (inside : x < t.size) :
    (t.append scope definition).1.next? x = if x = scope then some t.size else t.next? x := by
  rw [next?, nodes_append t scope definition inside, Option.bind_some]

theorem next?_append_made : (t.append scope definition).1.next? t.size = t.next? scope := by
  rw [next?, nodes_append_made, Option.bind_some]

theorem definition?_submodule {x : Nat} (inside : x < t.size) :
    (t.submodule scope).1.definition? x = t.definition? x := by
  rw [definition?, nodes_submodule t scope inside, Option.bind_some]

theorem definition?_submodule_made : (t.submodule scope).1.definition? t.size = none := by
  rw [definition?, nodes_submodule_made, Option.bind_some]

theorem previous?_submodule {x : Nat} (inside : x < t.size) :
    (t.submodule scope).1.previous? x = t.previous? x := by
  rw [previous?, nodes_submodule t scope inside, Option.bind_some]

theorem previous?_submodule_made : (t.submodule scope).1.previous? t.size = some scope := by
  rw [previous?, nodes_submodule_made, Option.bind_some]

theorem next?_submodule {x : Nat} (inside : x < t.size) :
    (t.submodule scope).1.next? x = t.next? x := by
  rw [next?, nodes_submodule t scope inside, Option.bind_some]

theorem next?_submodule_made : (t.submodule scope).1.next? t.size = none := by
  rw [next?, nodes_submodule_made, Option.bind_some]

/-- No link of the new state leads out of it. -/
theorem next_append (kept : ∀ x y, t.next? x = some y → y < t.size) :
    ∀ x y, (t.append scope definition).1.next? x = some y →
      y < (t.append scope definition).1.size := by
  intro x y link
  have inside := lt_size_of_next? link
  rw [size_append] at inside ⊢
  by_cases old : x < t.size
  · rw [next?_append t scope definition old] at link
    split at link
    · cases link
      omega
    · exact Nat.lt_succ_of_lt (kept x y link)
  · obtain rfl : x = t.size := by omega
    rw [next?_append_made] at link
    exact Nat.lt_succ_of_lt (kept scope y link)

theorem next_submodule (kept : ∀ x y, t.next? x = some y → y < t.size) :
    ∀ x y, (t.submodule scope).1.next? x = some y → y < (t.submodule scope).1.size := by
  intro x y link
  have inside := lt_size_of_next? link
  rw [size_submodule] at inside ⊢
  by_cases old : x < t.size
  · rw [next?_submodule t scope old] at link
    exact Nat.lt_succ_of_lt (kept x y link)
  · obtain rfl : x = t.size := by omega
    rw [next?_submodule_made] at link
    cases link

end

theorem Path.forall_lt {x : Nat} {path : List Nat} (h : t.Path x path) : ∀ y ∈ path, y < t.size :=
  fun _ member => by
    obtain ⟨_, back, _⟩ := h.of_mem member
    exact back.lt_size

theorem Path.append {x : Nat} {path : List Nat} (definition : Option MacroDefinition)
    (h : t.Path x path) (aside : ∀ y ∈ path, t.next? scope ≠ some y) :
    (t.append scope definition).1.Path x path := by
  induction h with
  | @head x inside first =>
    refine .head (by rw [size_append]; omega) ?_
    rw [previous?_append t scope definition inside (aside x (List.mem_singleton_self x)), first]
  | @back x before path link rest ih =>
    refine .back ?_ (ih fun y member => aside y (List.mem_cons_of_mem _ member))
    rw [previous?_append t scope definition (lt_size_of_previous? link)
      (aside x List.mem_cons_self), link]

theorem Path.submodule {x : Nat} {path : List Nat} (h : t.Path x path) :
    (t.submodule scope).1.Path x path := by
  induction h with
  | @head x inside first =>
    refine .head (by rw [size_submodule]; omega) ?_
    rw [previous?_submodule t scope inside, first]
  | @back x before path link rest ih =>
    refine .back ?_ ih
    rw [previous?_submodule t scope (lt_size_of_previous? link), link]

/-- What the scopes of a path hold stays as it is where no scope that was there changes. -/
theorem definitionsOn_grown {x : Nat} {path : List Nat} (h : t.Path x path)
    (same : ∀ y, y < t.size → t'.definition? y = t.definition? y) :
    t'.definitionsOn path = t.definitionsOn path :=
  List.filterMap_congr fun y member => same y (h.forall_lt y member)

/-! ## A new scope in use -/

/-- The scopes in use along with a new one. -/
def With (used : Nat → Prop) (made : Nat) (x : Nat) : Prop :=
  used x ∨ x = made

/-- A new scope is put to use whose way back goes on with a scope in use. -/
theorem Kept.made (kept : Kept t used) (inUse : used scope)
    (paths : ∀ x path, (∀ y ∈ path, used y) → t.Path x path → t'.Path x path)
    (link : t'.previous? t.size = some scope) (next : ∀ x y, t'.next? x = some y → y < t'.size) :
    Kept t' (With used t.size) where
  path := fun x member => by
    rcases member with before | rfl
    · obtain ⟨path, back, members⟩ := kept.path x before
      exact ⟨path, paths x path members back, fun y member => Or.inl (members y member)⟩
    · obtain ⟨path, back, members⟩ := kept.path scope inUse
      refine ⟨t.size :: path, .back link (paths scope path members back), fun y member => ?_⟩
      rcases List.mem_cons.mp member with rfl | later
      · exact Or.inr rfl
      · exact Or.inl (members y later)
  next := next

/-- Such a scope sees what it holds and what the scope before it sees. -/
theorem Sees.made {definitions : List MacroDefinition} (kept : Kept t used) (inUse : used scope)
    (paths : ∀ x path, (∀ y ∈ path, used y) → t.Path x path → t'.Path x path)
    (link : t'.previous? t.size = some scope)
    (same : ∀ y, y < t.size → t'.definition? y = t.definition? y)
    (seen : t.Sees scope definitions) :
    t'.Sees t.size ((t'.definition? t.size).toList ++ definitions) := by
  obtain ⟨path, back, rfl⟩ := seen
  obtain ⟨known, again, members⟩ := kept.path scope inUse
  cases again.unique back
  refine ⟨t.size :: path, .back link (paths scope path members back), ?_⟩
  rw [← definitionsOn_grown back same, definitionsOn, definitionsOn, List.filterMap_cons]
  cases t'.definition? t.size <;> rfl

/-- The other scopes in use see what they saw. -/
theorem Sees.grown {definitions : List MacroDefinition} {x : Nat} (kept : Kept t used)
    (inUse : used x)
    (paths : ∀ x path, (∀ y ∈ path, used y) → t.Path x path → t'.Path x path)
    (same : ∀ y, y < t.size → t'.definition? y = t.definition? y) (seen : t.Sees x definitions) :
    t'.Sees x definitions := by
  obtain ⟨path, back, rfl⟩ := seen
  obtain ⟨known, again, members⟩ := kept.path x inUse
  cases again.unique back
  exact ⟨path, paths x path members back, definitionsOn_grown back same⟩

namespace Open

variable (h : Open t used scope) (kept : Kept t used) (definition : Option MacroDefinition)
include h

theorem path_append (x : Nat) (path : List Nat) (members : ∀ y ∈ path, used y)
    (back : t.Path x path) : (t.append scope definition).1.Path x path :=
  back.append definition fun y member link => h.next y link (members y member)

include kept

theorem kept_append : Kept (t.append scope definition).1 (With used t.size) :=
  kept.made h.inUse (h.path_append definition) (previous?_append_made t scope definition)
    (next_append t scope definition kept.next)

theorem grows_append :
    Grows scope t used (t.append scope definition).1 (With used t.size) where
  size := by rw [size_append]; omega
  older := fun _ inUse => Or.inl inUse
  newer := fun _ inUse => inUse.imp id fun same => Nat.le_of_eq same.symm
  sees := fun _ _ inUse seen => seen.grown kept inUse (h.path_append definition) fun _ inside =>
    definition?_append t scope definition inside
  next := fun x inside other => by rw [next?_append t scope definition inside, if_neg other]

theorem open_append : Open (t.append scope definition).1 (With used t.size) t.size where
  inUse := Or.inr rfl
  next := fun y link inUse => by
    rw [next?_append_made] at link
    rcases inUse with before | rfl
    · exact h.next y link before
    · exact Nat.lt_irrefl _ (kept.next scope _ link)

theorem sees_append {definitions : List MacroDefinition} (seen : t.Sees scope definitions) :
    (t.append scope definition).1.Sees t.size (definition.toList ++ definitions) := by
  have made := seen.made kept h.inUse (h.path_append definition)
    (previous?_append_made t scope definition) fun y inside =>
      definition?_append t scope definition inside
  rwa [definition?_append_made] at made

/-! A new scope may also be left unused. -/

theorem kept_unused : Kept (t.append scope definition).1 used where
  path := fun x inUse => by
    obtain ⟨path, back, members⟩ := kept.path x inUse
    exact ⟨path, h.path_append definition x path members back, members⟩
  next := next_append t scope definition kept.next

theorem grows_unused : Grows scope t used (t.append scope definition).1 used where
  size := by rw [size_append]; omega
  older := fun _ inUse => inUse
  newer := fun _ inUse => Or.inl inUse
  sees := (h.grows_append kept definition).sees
  next := (h.grows_append kept definition).next

theorem open_unused : Open (t.append scope definition).1 used scope where
  inUse := h.inUse
  next := fun y link inUse => by
    rw [next?_append t scope definition (kept.lt_size h.inUse), if_pos rfl] at link
    cases link
    exact Nat.lt_irrefl _ (kept.lt_size inUse)

end Open

theorem Kept.kept_submodule (kept : Kept t used) (inUse : used scope) :
    Kept (t.submodule scope).1 (With used t.size) :=
  kept.made inUse (fun _ _ _ back => back.submodule) (previous?_submodule_made t scope)
    (next_submodule t scope kept.next)

theorem Kept.grows_submodule (kept : Kept t used) (origin scope : Nat) :
    Grows origin t used (t.submodule scope).1 (With used t.size) where
  size := by rw [size_submodule]; omega
  older := fun _ inUse => Or.inl inUse
  newer := fun _ inUse => inUse.imp id fun same => Nat.le_of_eq same.symm
  sees := fun _ _ inUse seen => seen.grown kept inUse (fun _ _ _ back => back.submodule)
    fun _ inside => definition?_submodule t scope inside
  next := fun x inside _ => next?_submodule t scope inside

theorem open_submodule (t : TextualScopes) (used : Nat → Prop) (scope : Nat) :
    Open (t.submodule scope).1 (With used t.size) t.size where
  inUse := Or.inr rfl
  next := fun y link => by
    rw [next?_submodule_made] at link
    cases link

theorem Kept.sees_submodule {definitions : List MacroDefinition} (kept : Kept t used)
    (inUse : used scope) (seen : t.Sees scope definitions) :
    (t.submodule scope).1.Sees t.size definitions := by
  have made := seen.made kept inUse (fun _ _ _ back => back.submodule)
    (previous?_submodule_made t scope) fun y inside => definition?_submodule t scope inside
  rwa [definition?_submodule_made] at made

end MacroExpansion.TextualScopes
