import Mathlib.Data.List.Basic
import MacroExpansion.Proofs.Expansion.Attribution
import MacroExpansion.Proofs.Expansion.Bindings
import MacroExpansion.Proofs.Grammar.Reading
import MacroExpansion.Proofs.Walk.Placement

/-!
# Generated items bind names as written ones do

Items can be walked in a scope, or be read from generated text and placed there as the results of
an invocation. Main statement: either way the same names are tried in that scope, in the same order
and with the same kinds, so that the same names are bound in the end. Whatever stands deeper in the
items is tried in scopes that the walk makes; no other scope changes.
-/
namespace MacroExpansion

/-- What is tried in a scope, in order: names in their namespaces, each with its kind. -/
def triedIn (scope : ScopeId) (attempts : List (ScopeId × Declaration)) :
    List (Slot × ElementKind) :=
  attempts.filterMap fun a => if a.1 = scope then some (a.2.slot, a.2.binding.kind) else none

/-- The name that an item declares where it stands, and what it is. -/
def Item.tried? (i : Item) : Option (Slot × ElementKind) :=
  i.describe.bind fun d => (d.kind.slot? d.name).map fun slot => (slot, d.kind)

theorem triedIn_append (scope : ScopeId) (xs ys : List (ScopeId × Declaration)) :
    triedIn scope (xs ++ ys) = triedIn scope xs ++ triedIn scope ys :=
  List.filterMap_append

/-- Attempts in other scopes are not told. -/
theorem triedIn_eq_nil {scope : ScopeId} {attempts : List (ScopeId × Declaration)}
    (others : ∀ a ∈ attempts, a.1 ≠ scope) : triedIn scope attempts = [] :=
  List.filterMap_eq_nil_iff.mpr fun a member => if_neg (others a member)

/-- The kind that a name is bound with is that of the first attempt on it. -/
theorem kind_firstBinding (attempts : List (ScopeId × Declaration)) (scope : ScopeId)
    (slot : Slot) :
    (firstBinding attempts scope slot).map Binding.kind =
      ((triedIn scope attempts).find? fun a => a.1 = slot).map Prod.snd := by
  induction attempts with
  | nil => rfl
  | cons a rest ih =>
    obtain ⟨other, d⟩ := a
    have split : firstBinding ((other, d) :: rest) scope slot =
        (firstBinding [(other, d)] scope slot).or (firstBinding rest scope slot) :=
      firstBinding_append [(other, d)] rest scope slot
    rw [split, firstBinding_singleton, triedIn, List.filterMap_cons]
    by_cases here : other = scope
    · subst here
      by_cases same : slot = d.slot
      · simp [same]
      · have different : ¬ d.slot = slot := fun h => same h.symm
        simp [same, different, ih, triedIn]
    · have elsewhere : ¬ scope = other := fun h => here h.symm
      simp [here, elsewhere, ih, triedIn]

/-! ## Bindings after a run -/

namespace ScopeTree

/-- Declaring changes no other scope. -/
theorem get?_declare {t made : ScopeTree} {scope other : ScopeId} {slot : Slot} {binding : Binding}
    (h : t.declare scope slot binding = .ok made) (elsewhere : other ≠ scope) :
    made.get? other = t.get? other := by
  obtain ⟨_, rfl⟩ | ⟨node, bindings, _, _, rfl⟩ := declare_cases h
  · rfl
  · have different : scope.index ≠ other.index := fun same =>
      elsewhere (congrArg ScopeId.mk same.symm)
    rw [get?, get?, Array.getElem?_modify, if_neg different]

/-- Making a scope changes none of those that exist. -/
theorem get?_add {t : ScopeTree} {other : ScopeId} (old : other.index < t.size)
    (kind : ScopeKind) (parent : ScopeId) : (t.add kind parent).1.get? other = t.get? other := by
  have different : other.index ≠ t.nodes.size := Nat.ne_of_lt old
  rw [get?, get?, add, Array.getElem?_push, if_neg different]

end ScopeTree

namespace TracedTree

/-- A step changes no scope but the one it declares in. -/
theorem get?_step {t : TracedTree} {other : ScopeId} (old : other.index < t.tree.scopes.size)
    {s : TreeStep} (elsewhere : ∀ a ∈ s.declared?, a.1 ≠ other) :
    (t.step s).tree.scopes.get? other = t.tree.scopes.get? other := by
  cases s with
  | declare scope d =>
    have different : other ≠ scope := (elsewhere (scope, d) rfl).symm
    rw [step, declare]
    split
    next scopes made => exact ScopeTree.get?_declare made different
    next => rfl
  | addScope kind parent => exact ScopeTree.get?_add old kind parent
  | register name body =>
    simp only [step, register]
    split <;> rfl
  | report _ | append _ _ | submodule _ | record _ _ => rfl

/-- A run changes no scope that is there and that it does not declare in. -/
theorem get?_run {t : TracedTree} {other : ScopeId} {steps : List TreeStep}
    (old : other.index < t.tree.scopes.size)
    (elsewhere : ∀ a ∈ steps.filterMap TreeStep.declared?, a.1 ≠ other) :
    (t.run steps).tree.scopes.get? other = t.tree.scopes.get? other := by
  induction steps generalizing t with
  | nil => rfl
  | cons s rest ih =>
    have first : ∀ a ∈ s.declared?, a.1 ≠ other := fun a asked =>
      elsewhere a (List.mem_filterMap.mpr ⟨s, List.mem_cons_self, asked⟩)
    have later : ∀ a ∈ rest.filterMap TreeStep.declared?, a.1 ≠ other := fun a member => by
      obtain ⟨s', among, asked⟩ := List.mem_filterMap.mp member
      exact elsewhere a (List.mem_filterMap.mpr ⟨s', List.mem_cons_of_mem s among, asked⟩)
    have still : other.index < (t.step s).tree.scopes.size := by
      have grown : (t.step s).tree.scopes.size =
          t.tree.scopes.size + s.opened?.toList.length := by
        rw [← ScopeTree.length_shape, shape_step, List.length_append, ScopeTree.length_shape]
      omega
    rw [run_cons, ih still later, get?_step old first]

/-- What is bound after a step was bound before, or is what the step declares. -/
theorem binding?_step {t : TracedTree} {s : TreeStep} (sound : s.Sound t) (scope : ScopeId)
    (slot : Slot) :
    (t.step s).tree.scopes.binding? scope slot =
      (t.tree.scopes.binding? scope slot).or (firstBinding s.declared?.toList scope slot) := by
  cases s with
  | declare other d =>
    obtain ⟨kind, standing⟩ := sound
    change (t.declare other d).tree.scopes.binding? scope slot =
      (t.tree.scopes.binding? scope slot).or (firstBinding [(other, d)] scope slot)
    rw [firstBinding_singleton]
    cases found : t.tree.scopes.binding? other d.slot with
    | some binding =>
      rw [declare_of_bound (by rw [found]; rfl)]
      split
      next same =>
        rw [same.1, same.2, found]
        exact found
      next => exact Option.or_none.symm
    | none =>
      obtain ⟨scopes, made, after, _⟩ :=
        declare_of_free (ScopeTree.get?_of_kind? standing) found
      rw [made]
      change scopes.binding? scope slot = _
      rw [after]
      split
      next same => rw [same.1, same.2, found, Option.none_or]
      next => exact Option.or_none.symm
  | addScope kind parent =>
    exact (ScopeTree.binding?_add _ kind parent scope slot).trans Option.or_none.symm
  | register name body =>
    refine Eq.trans ?_ Option.or_none.symm
    simp only [step, register]
    split <;> rfl
  | report _ | append _ _ | submodule _ | record _ _ => exact Option.or_none.symm

/-- A run binds a name that is free by the first attempt on it, and leaves the others. -/
theorem binding?_run {t : TracedTree} {steps : List TreeStep} (sound : t.Sound steps)
    (scope : ScopeId) (slot : Slot) :
    (t.run steps).tree.scopes.binding? scope slot =
      (t.tree.scopes.binding? scope slot).or
        (firstBinding (steps.filterMap TreeStep.declared?) scope slot) := by
  induction steps generalizing t with
  | nil => exact Option.or_none.symm
  | cons s rest ih =>
    have split : (s :: rest).filterMap TreeStep.declared? =
        s.declared?.toList ++ rest.filterMap TreeStep.declared? := by
      rw [List.filterMap_cons]
      cases s.declared? <;> rfl
    rw [run_cons, ih sound.2, binding?_step sound.1, split, firstBinding_append, Option.or_assoc]

/-- The kinds that the names of a scope are bound with after a run hang on nothing but what was
bound before and what was tried in that scope. -/
theorem kind_binding?_run {t : TracedTree} {steps : List TreeStep} (sound : t.Sound steps)
    (scope : ScopeId) (slot : Slot) :
    ((t.run steps).tree.scopes.binding? scope slot).map Binding.kind =
      ((t.tree.scopes.binding? scope slot).map Binding.kind).or
        (((triedIn scope (steps.filterMap TreeStep.declared?)).find? fun a => a.1 = slot).map
          Prod.snd) := by
  rw [binding?_run sound, Option.map_or, kind_firstBinding]

/-- Declarations in a scope that exists. -/
theorem sound_declarations {t : TracedTree} {scope : ScopeId} {kind : ScopeKind}
    (standing : t.tree.scopes.kind? scope = some kind) {attempts : List (ScopeId × Declaration)}
    (there : ∀ a ∈ attempts, a.1 = scope) :
    t.Sound (attempts.map fun a => .declare a.1 a.2) := by
  induction attempts generalizing t with
  | nil => trivial
  | cons a rest ih =>
    have here : a.1 = scope := there a List.mem_cons_self
    have first : t.tree.scopes.kind? a.1 = some kind := by rw [here, standing]
    exact ⟨⟨kind, first⟩, ih (kind?_step standing _) fun b member =>
      there b (List.mem_cons_of_mem a member)⟩

end TracedTree

/-! ## What a walk tries -/

/-- An item, and then what stands within the regions that it makes. -/
theorem Outline.item_eq (scope : ScopeId) (kind : ScopeKind) (next : Nat)
    (levels : List (List Statement)) (i : Item) :
    ∃ inside, Outline.item scope kind next levels i = ⟨scope, kind, levels, .item i⟩ :: inside ∧
      ∀ p ∈ inside, next ≤ p.scope.index := by
  cases i with
  | module head spelling members =>
    refine ⟨Outline.items ⟨next⟩ .module (next + 1) [] levels members, ?_, fun p member => ?_⟩
    · rw [Outline.item]
    · obtain ⟨k, _, number, _, _⟩ := (within_items ⟨.module, some scope, members.map .item⟩ ⟨next⟩
        (next + 1) [] levels members (fun i own => List.mem_map_of_mem own) p member).hold
      omega
  | function head spelling body =>
    refine ⟨Outline.statements ⟨next⟩ .block (next + 1) [] levels body, ?_, fun p member => ?_⟩
    · rw [Outline.item]
    · obtain ⟨k, _, number, _, _⟩ := (within_statements ⟨.block, some scope, body⟩ rfl ⟨next⟩
        (next + 1) [] levels body (fun s own => own) p member).hold
      omega
  | implementation head functions =>
    refine ⟨Outline.bodies next levels scope functions, ?_, fun p member => ?_⟩
    · rw [Outline.item]
    · obtain ⟨k, _, number, _, _⟩ := held_bodies next levels scope functions p member
      omega
  | leaf _ _ _ | moduleElsewhere _ _ | ruleSet _ _ | invocation _ _ | raw _ =>
    exact ⟨[], by simp only [Outline.item], fun p member => by cases member⟩

theorem triedIn_toList (scope : ScopeId) (declaration : Option Declaration) :
    triedIn scope (declaration.map fun d => (scope, d)).toList =
      (declaration.map fun d => (d.slot, d.binding.kind)).toList := by
  cases declaration with
  | none => rfl
  | some d => simp [triedIn]

/-- The declaration of an item binds the name that it declares, as what it is. -/
theorem Item.tried?_eq (i : Item) (file : String) :
    (i.declaration? file).map (fun d => (d.slot, d.binding.kind)) = i.tried? := by
  unfold declaration? tried? slot?
  cases i.describe with
  | none => rfl
  | some d => cases found : d.kind.slot? d.name <;> simp [found]

/-- An item whose text can be cut out tries in its place what describes it. -/
theorem tried_placed {i : Item} (named : i.Named) {code : List Char}
    (cut : (i.head.textIn? code).isSome) (file : String) (scope : ScopeId) (kind : ScopeKind)
    (levels : List (List Statement)) :
    triedIn scope ((Placed.mk scope kind levels (.item i)).declared? file code).toList =
      i.tried?.toList := by
  rw [Placed.declared?, triedIn_toList]
  cases i with
  | ruleSet head spelling =>
    obtain ⟨text, found⟩ := Option.isSome_iff_exists.mp cut
    change head.textIn? code = some text at found
    have name : Item.declaredName spelling = some (.ofSpelling spelling) := if_neg named
    simp only [Placed.declaration?, ItemHead.definition?, found, Item.tried?, Item.describe, name]
    rfl
  | leaf _ _ _ | module _ _ _ | moduleElsewhere _ _ | function _ _ _ | implementation _ _
  | invocation _ _ | raw _ => exact congrArg Option.toList (Item.tried?_eq _ file)

/-- What items try in the scope that they stand in is what describes them, one by one. -/
theorem tried_items {file : String} {code : List Char} {scope : ScopeId} {kind : ScopeKind}
    {list : List Item} (named : ∀ i ∈ list, i.Named)
    (cut : ∀ i ∈ list, (i.head.textIn? code).isSome) :
    ∀ {next : Nat}, scope.index < next → ∀ (before : List Statement)
      (outer : List (List Statement)),
    triedIn scope ((Outline.items scope kind next before outer list).filterMap fun p =>
      p.declared? file code) = list.filterMap Item.tried? := by
  induction list with
  | nil =>
    intro next _ before outer
    rw [Outline.items]
    rfl
  | cons i rest ih =>
    intro next fresh before outer
    obtain ⟨inside, made, deeper⟩ := Outline.item_eq scope kind next (before :: outer) i
    have own := tried_placed (named i List.mem_cons_self) (cut i List.mem_cons_self) file scope kind
      (before :: outer)
    have nothingTried : triedIn scope (inside.filterMap fun p => p.declared? file code) = [] := by
      refine triedIn_eq_nil fun a member => ?_
      obtain ⟨p, among, asked⟩ := List.mem_filterMap.mp member
      obtain ⟨d, _, rfl⟩ := Option.map_eq_some_iff.mp asked
      have below : next ≤ p.scope.index := deeper p among
      intro same
      change p.scope = scope at same
      rw [same] at below
      omega
    have later := ih (fun j member => named j (List.mem_cons_of_mem i member))
      (fun j member => cut j (List.mem_cons_of_mem i member))
      (Nat.lt_of_lt_of_le fresh (Nat.le_add_right next (Regions.item scope next i).length))
      (before ++ [.item i]) outer
    have first : (Placed.mk scope kind (before :: outer) (.item i) :: inside).filterMap
        (fun p => p.declared? file code) =
        ((Placed.mk scope kind (before :: outer) (.item i)).declared? file code).toList ++
          inside.filterMap fun p => p.declared? file code := by
      rw [List.filterMap_cons]
      cases Placed.declared? _ file code <;> rfl
    rw [Outline.items, made, List.filterMap_append, triedIn_append, later, first, triedIn_append,
      own, nothingTried, List.append_nil, List.filterMap_cons]
    cases i.tried? <;> rfl

/-- What walking items tries, in the scope that they stand in and in those that they make. -/
def TracedTree.triedByWalk (t : TracedTree) (code : List Char) (here : Standpoint)
    (items : List Item) : List (ScopeId × Declaration) :=
  (Script.items t.tree.file code here t.supply items).filterMap TreeStep.declared?

theorem tried_walk {t : TracedTree} {code : List Char} {here : Standpoint} {items : List Item}
    (fresh : here.scope.index < t.tree.scopes.size) (named : ∀ i ∈ items, i.Named)
    (cut : ∀ i ∈ items, (i.head.textIn? code).isSome) :
    triedIn here.scope (t.triedByWalk code here items) = items.filterMap Item.tried? := by
  have follows := follows_items t.tree.file code here t.supply [] [] items
  rw [TracedTree.triedByWalk, follows.declared]
  exact tried_items named cut fresh [] []

/-- Whatever a walk tries is tried in the scope that it stands in or in a scope that it makes. -/
theorem scope_of_tried {t : TracedTree} {code : List Char} {here : Standpoint} {items : List Item}
    {a : ScopeId × Declaration} (member : a ∈ t.triedByWalk code here items) :
    a.1 = here.scope ∨ t.tree.scopes.size ≤ a.1.index ∧ a.1.index <
      (t.run (Script.items t.tree.file code here t.supply items)).tree.scopes.size := by
  have follows := follows_items t.tree.file code here t.supply [] [] items
  have size : (t.run (Script.items t.tree.file code here t.supply items)).tree.scopes.size =
      t.tree.scopes.size + (Regions.items here.scope t.supply.scopes items).length := by
    rw [← ScopeTree.length_shape, TracedTree.shape_run, follows.opened, List.length_append,
      ScopeTree.length_shape, List.length_map]
  rw [TracedTree.triedByWalk, follows.declared] at member
  obtain ⟨p, among, asked⟩ := List.mem_filterMap.mp member
  obtain ⟨d, _, rfl⟩ := Option.map_eq_some_iff.mp asked
  have within := within_items ⟨here.kind, none, items.map .item⟩ here.scope t.supply.scopes [] []
    items (fun i own => List.mem_map_of_mem own) p among
  rcases within with ⟨own, _⟩ | ⟨k, region, number, found, _⟩
  · exact Or.inl own
  · have inside := (List.getElem?_eq_some_iff.mp found).1
    refine Or.inr ⟨?_, ?_⟩
    · change t.supply.scopes ≤ p.scope.index
      omega
    · rw [size]
      change p.scope.index < t.supply.scopes + _
      omega

/-! ## What results try -/

/-- What binding the results of an invocation tries. -/
def triedBy (invocation : MacroInvocation) (results : List BoundElement) :
    List (ScopeId × Declaration) :=
  results.filterMap fun result =>
    (result.declaration? invocation).map fun declaration => (result.context, declaration)

/-- What a placed element tries is the name that it declares. -/
theorem triedIn_triedBy (invocation : MacroInvocation) (scope : ScopeId) (elements : List Element) :
    triedIn scope (triedBy invocation (elements.map fun e => { e with context := scope })) =
      elements.filterMap fun e => (e.kind.slot? e.name).map fun slot => (slot, e.kind) := by
  rw [triedIn, triedBy, List.filterMap_map, List.filterMap_filterMap]
  refine List.filterMap_congr fun e _ => ?_
  simp only [Function.comp_apply, BoundElement.declaration?, BoundElement.slot?]
  cases e.kind.slot? e.name <;> simp

/-- The elements of a unit, placed in a scope, try there what describes its items. -/
theorem tried_elements {u : ScratchUnit} (cut : ∀ i ∈ u.items, (u.textOf? i.head).isSome)
    (outer : Option Span) (invocation : MacroInvocation) (scope : ScopeId) :
    triedIn scope (triedBy invocation ((u.elements outer).map fun e =>
      { e with context := scope })) = u.items.filterMap Item.tried? := by
  rw [triedIn_triedBy, ScratchUnit.elements, List.filterMap_filterMap]
  refine List.filterMap_congr fun i member => ?_
  obtain ⟨text, found⟩ := Option.isSome_iff_exists.mp (cut i member)
  simp only [ScratchUnit.element?, found, Item.tried?]
  cases i.describe <;> rfl

theorem declared_declarations (attempts : List (ScopeId × Declaration)) :
    (attempts.map fun a => TreeStep.declare a.1 a.2).filterMap TreeStep.declared? = attempts := by
  simp [List.filterMap_map, Function.comp_def, TreeStep.declared?]

theorem scope_of_triedBy {invocation : MacroInvocation} {results : List BoundElement}
    {scope : ScopeId} (placed : ∀ result ∈ results, result.context = scope)
    {a : ScopeId × Declaration} (member : a ∈ triedBy invocation results) : a.1 = scope := by
  obtain ⟨result, among, asked⟩ := List.mem_filterMap.mp member
  obtain ⟨d, _, rfl⟩ := Option.map_eq_some_iff.mp asked
  exact placed result among

/-! ## The two compared -/

/-- What items do where a walk stands, and what the results of an invocation do there. -/
structure BindAlike (t : TracedTree) (code : List Char) (here : Standpoint) (items : List Item)
    (invocation : MacroInvocation) (results : List BoundElement) : Prop where
  /-- The walk takes the steps that it is told to take. -/
  walked : t.walkItems code here.scope here.position items =
    t.run (Script.items t.tree.file code here t.supply items)
  /-- Binding the results takes these steps, in whatever tree. -/
  expanded : ∀ later : TracedTree, results.foldl (TracedTree.bindResult invocation) later =
    later.run ((triedBy invocation results).map fun a => .declare a.1 a.2)
  /-- The same names are tried in the scope, with the same kinds and in the same order. -/
  alike : triedIn here.scope (t.triedByWalk code here items) =
    triedIn here.scope (triedBy invocation results)
  /-- The walk tries names elsewhere only in scopes that it makes. -/
  deeper : ∀ a ∈ t.triedByWalk code here items, a.1 = here.scope ∨
    t.tree.scopes.size ≤ a.1.index ∧
      a.1.index < (t.walkItems code here.scope here.position items).tree.scopes.size
  /-- The results try names nowhere else. -/
  placed : ∀ a ∈ triedBy invocation results, a.1 = here.scope
  /-- The same names are bound in the scope in the end, with the same kinds. -/
  bound : ∀ slot,
    ((t.walkItems code here.scope here.position items).tree.scopes.binding? here.scope slot).map
        Binding.kind =
      ((results.foldl (TracedTree.bindResult invocation) t).tree.scopes.binding? here.scope
        slot).map Binding.kind
  /-- The walk changes no other scope that was there. -/
  others : ∀ other : ScopeId, other ≠ here.scope → other.index < t.tree.scopes.size →
    (t.walkItems code here.scope here.position items).tree.scopes.get? other =
      t.tree.scopes.get? other

/-- Items that were read bind alike whether they are walked in a scope or are the results of an
invocation there. -/
theorem read_items_bind_alike {t : TracedTree} {here : Standpoint}
    (standing : t.tree.scopes.kind? here.scope = some here.kind) {code : List Char}
    {u : ScratchUnit} (parsed : ∀ i ∈ u.items, i.Parsed)
    (cut : ∀ i ∈ u.items, (i.head.textIn? code).isSome ∧ (u.textOf? i.head).isSome)
    (outer : Option Span) {invocation : MacroInvocation}
    (named : invocation.context.scope? = some here.scope) :
    ∃ results, bindAll (u.elements outer) invocation.context = .ok results ∧
      BindAlike t code here u.items invocation results := by
  have fresh : here.scope.index < t.tree.scopes.size := by
    obtain ⟨node, inside, _⟩ := Option.map_eq_some_iff.mp standing
    exact (Array.getElem?_eq_some_iff.mp inside).1
  have walked := t.walkItems_eq_run code here standing u.items
  have tried := tried_walk fresh (fun i member => Grammar.named_of_parsed (parsed i member))
    fun i member => (cut i member).1
  have results := tried_elements (fun i member => (cut i member).2) outer invocation here.scope
  have placed : ∀ a ∈ triedBy invocation ((u.elements outer).map fun e =>
      { e with context := here.scope }), a.1 = here.scope := by
    refine fun a member => scope_of_triedBy (fun result among => ?_) member
    obtain ⟨e, _, rfl⟩ := List.mem_map.mp among
    rfl
  refine ⟨_, bindAll_of_scope named _, walked, fun later => later.foldl_bindResult invocation _,
    tried.trans results.symm, ?_, placed, fun slot => ?_, fun other different old => ?_⟩
  · rw [walked]
    exact fun a => scope_of_tried
  · have sound := TracedTree.sound_items code here t standing u.items
    have declared := TracedTree.sound_declarations standing placed
    have expanded := TracedTree.kind_binding?_run declared here.scope slot
    rw [declared_declarations, results] at expanded
    have kinds := TracedTree.kind_binding?_run sound here.scope slot
    rw [← TracedTree.triedByWalk, tried] at kinds
    rw [walked, kinds, t.foldl_bindResult]
    exact expanded.symm
  · rw [walked]
    refine TracedTree.get?_run old fun a member same => ?_
    have whereTried := scope_of_tried member
    rw [same] at whereTried
    rcases whereTried with sameScope | ⟨new, _⟩
    · exact different sameScope
    · omega

/-- A structure, a function with a structure in it and a rule set, in an empty file. -/
theorem read_items_bind_alike_generated :
    let text := "struct A; fn f() { struct B; } macro_rules! m { () => {} }".toList
    let tree : TracedTree := ⟨.empty "lib.rs", []⟩
    let here : Standpoint := ⟨ScopeTree.root, .module, 0⟩
    let invocation : MacroInvocation := ⟨⟨"items"⟩, "items!()", .fake, .module ScopeTree.root⟩
    ∃ u : ScratchUnit, Grammar.parseFile text = .ok u.items ∧
      tree.tree.scopes.kind? here.scope = some here.kind ∧
      (∀ i ∈ u.items, i.Parsed) ∧
      (∀ i ∈ u.items, (i.head.textIn? text).isSome ∧ (u.textOf? i.head).isSome) ∧
      invocation.context.scope? = some here.scope ∧
      u.items.filterMap Item.tried? = [(⟨.types, ⟨"A"⟩⟩, .struct), (⟨.values, ⟨"f"⟩⟩, .function),
        (⟨.macros, ⟨"m"⟩⟩, .macroRules)] ∧
      ∃ results, bindAll (u.elements (some invocation.span)) invocation.context = .ok results ∧
        BindAlike tree text here u.items invocation results := by
  intro text tree here invocation
  have checked : (Grammar.parseFile text).toOption.map (fun items =>
      (items.all fun i => (i.head.textIn? text).isSome &&
        ((ScratchUnit.mk "MACRO.rs" text items).textOf? i.head).isSome,
        items.filterMap Item.tried?)) =
      some (true, [(⟨.types, ⟨"A"⟩⟩, .struct), (⟨.values, ⟨"f"⟩⟩, .function),
        (⟨.macros, ⟨"m"⟩⟩, .macroRules)]) := by
    decide +kernel
  obtain ⟨items, given, told⟩ := Option.map_eq_some_iff.mp checked
  obtain ⟨texts, tried⟩ := Prod.mk.inj told
  have read : Grammar.parseFile text = .ok items := Attempt.of_toOption given
  have parsed := Grammar.parsed_of_parseFile read
  have cut : ∀ i ∈ items, (i.head.textIn? text).isSome ∧
      ((ScratchUnit.mk "MACRO.rs" text items).textOf? i.head).isSome := by
    simpa using texts
  have standing : tree.tree.scopes.kind? here.scope = some here.kind := rfl
  exact ⟨⟨"MACRO.rs", text, items⟩, read, standing, parsed, cut, rfl, tried,
    read_items_bind_alike standing parsed cut (some invocation.span) rfl⟩

end MacroExpansion
