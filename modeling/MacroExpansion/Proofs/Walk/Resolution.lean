import MacroExpansion.Proofs.Expansion.Settlement
import MacroExpansion.Proofs.Walk.Consistency

/-!
# Names are resolved outwards

A name is looked for in the scope that it is asked for in, then in the one which that stands in, and
so on out to the nearest module. In the tree of a file this way out comes to an end, since every
scope but the root stands in an older one and the root is a module. Main statement: a name stands
for what the first scope on the way out binds it to, and what other scopes bind makes no difference.
-/
namespace MacroExpansion

namespace ScopeTree

/-- The scopes from one scope out to the nearest module, itself first. There are none from a number
that no scope has. -/
inductive WayOut (t : ScopeTree) : ScopeId → List ScopeId → Prop
  | absent {scope : ScopeId} (missing : t.get? scope = none) : WayOut t scope []
  | module {scope : ScopeId} (kind : t.kind? scope = some .module) : WayOut t scope [scope]
  | block {scope parent : ScopeId} {way : List ScopeId} (kind : t.kind? scope = some .block)
      (link : t.parent? scope = some parent) (rest : WayOut t parent way) :
      WayOut t scope (scope :: way)

/-- The search for a name comes to its end, however many steps it may take, and gives a result. -/
inductive Finds (t : ScopeTree) (slot : Slot) : ScopeId → Option Binding → Prop
  | absent {scope : ScopeId} (missing : t.get? scope = none) : Finds t slot scope none
  | bound {scope : ScopeId} {binding : Binding} (binds : t.binding? scope slot = some binding) :
      Finds t slot scope (some binding)
  | module {scope : ScopeId} (kind : t.kind? scope = some .module)
      (unbound : t.binding? scope slot = none) : Finds t slot scope none
  | block {scope parent : ScopeId} {result : Option Binding} (kind : t.kind? scope = some .block)
      (unbound : t.binding? scope slot = none) (link : t.parent? scope = some parent)
      (rest : Finds t slot parent result) : Finds t slot scope result

/-- The binding that the first of some scopes gives a name. -/
def firstOn (t : ScopeTree) (slot : Slot) (way : List ScopeId) : Option Binding :=
  way.findSome? fun scope => t.binding? scope slot

variable {t other : ScopeTree} {scope : ScopeId} {way : List ScopeId}

theorem get?_of_shape (same : other.shape = t.shape) (scope : ScopeId) :
    other.get? scope = none ↔ t.get? scope = none := by
  rw [← Option.map_eq_none_iff (f := fun node => (node.kind, node.parent)), ← getElem?_shape, same,
    getElem?_shape, Option.map_eq_none_iff]

theorem kind?_of_shape (same : other.shape = t.shape) (scope : ScopeId) :
    other.kind? scope = t.kind? scope := by
  rw [kind?_eq, kind?_eq, same]

theorem parent?_of_shape (same : other.shape = t.shape) (scope : ScopeId) :
    other.parent? scope = t.parent? scope := by
  rw [parent?_eq, parent?_eq, same]

theorem firstOn_cons (t : ScopeTree) (slot : Slot) (scope : ScopeId) (way : List ScopeId) :
    t.firstOn slot (scope :: way) = (t.binding? scope slot).or (t.firstOn slot way) := by
  rw [firstOn, List.findSome?_cons]
  cases t.binding? scope slot <;> rfl

namespace WayOut

theorem unique {others : List ScopeId} (h : t.WayOut scope way) (k : t.WayOut scope others) :
    others = way := by
  induction h generalizing others with
  | absent missing =>
    cases k with
    | absent _ => rfl
    | module kind | block kind _ _ => exact absurd missing (get?_of_kind? kind)
  | module kind =>
    cases k with
    | absent missing => exact absurd missing (get?_of_kind? kind)
    | module _ => rfl
    | block kind' _ _ =>
      rw [kind] at kind'
      cases kind'
  | block kind link _ ih =>
    cases k with
    | absent missing => exact absurd missing (get?_of_kind? kind)
    | module kind' =>
      rw [kind] at kind'
      cases kind'
    | block _ link' rest =>
      rw [link] at link'
      cases link'
      rw [ih rest]

/-- The way out is the same in all trees of the same scopes. -/
theorem of_shape (h : t.WayOut scope way) (same : other.shape = t.shape) :
    other.WayOut scope way := by
  induction h with
  | absent missing => exact .absent ((get?_of_shape same _).mpr missing)
  | module kind => exact .module (by rw [kind?_of_shape same, kind])
  | block kind link _ ih =>
    exact .block (by rw [kind?_of_shape same, kind]) (by rw [parent?_of_shape same, link]) ih

theorem nil_iff (h : t.WayOut scope way) : way = [] ↔ t.get? scope = none := by
  cases h with
  | absent missing => simp [missing]
  | module kind | block kind _ _ => simp [get?_of_kind? kind]

/-- The search reads the way out to its end. -/
theorem finds (h : t.WayOut scope way) (slot : Slot) : t.Finds slot scope (t.firstOn slot way) := by
  induction h with
  | absent missing => exact .absent missing
  | @module scope kind =>
    rw [firstOn_cons]
    cases binds : t.binding? scope slot with
    | none => exact .module kind binds
    | some binding => exact .bound binds
  | @block scope parent way kind link _ ih =>
    rw [firstOn_cons]
    cases binds : t.binding? scope slot with
    | none => exact .block kind binds link ih
    | some binding => exact .bound binds

/-- As many steps as there are scopes on the way out are enough. -/
theorem resolveWithin (h : t.WayOut scope way) (slot : Slot) {steps : Nat}
    (enough : way.length ≤ steps) :
    t.resolveWithin slot steps scope = t.firstOn slot way := by
  induction h generalizing steps with
  | absent missing => cases steps <;> simp [ScopeTree.resolveWithin, missing, firstOn]
  | @module scope kind =>
    obtain ⟨left, rfl⟩ := Nat.exists_eq_add_one_of_ne_zero (Nat.ne_of_gt enough)
    obtain ⟨node, found, kind⟩ := Option.map_eq_some_iff.mp kind
    rw [firstOn_cons, binding?, ScopeTree.resolveWithin, found]
    simp only [Option.bind_some, kind]
    cases node.bindings.get? slot <;> rfl
  | @block scope parent way kind link _ ih =>
    obtain ⟨left, rfl⟩ := Nat.exists_eq_add_one_of_ne_zero
      (Nat.ne_of_gt (Nat.lt_of_lt_of_le (Nat.succ_pos _) enough))
    obtain ⟨node, found, kind⟩ := Option.map_eq_some_iff.mp kind
    rw [parent?, found] at link
    rw [firstOn_cons, binding?, ScopeTree.resolveWithin, found]
    simp only [Option.bind_some, kind] at link ⊢
    rw [link, ← ih (Nat.le_of_succ_le_succ enough)]
    cases node.bindings.get? slot <;> rfl

end WayOut

/-- As seen from a scope, a name stands for what the first scope on the way out binds it to. -/
structure ResolvesAlong (t : ScopeTree) (scope : ScopeId) (slot : Slot) (way : List ScopeId) :
    Prop where
  out : t.WayOut scope way
  only : ∀ others, t.WayOut scope others → others = way
  unknown : way = [] ↔ t.get? scope = none
  ends : ∀ last ∈ way.getLast?, t.kind? last = some .module
  older : way.Pairwise fun inner outer => outer.index < inner.index
  finds : t.Finds slot scope (t.resolve scope slot)
  settled : ∀ steps, t.size ≤ steps → t.resolveWithin slot steps scope = t.resolve scope slot
  answer : t.resolve scope slot = t.firstOn slot way
  /-- What the other scopes bind makes no difference. -/
  alone : ∀ other : ScopeTree, other.shape = t.shape →
    (∀ s ∈ way, other.binding? s slot = t.binding? s slot) →
    other.resolve scope slot = t.resolve scope slot

theorem firstOn_congr {slot : Slot}
    (agree : ∀ s ∈ way, other.binding? s slot = t.binding? s slot) :
    other.firstOn slot way = t.firstOn slot way := by
  induction way with
  | nil => rfl
  | cons scope way ih =>
    rw [firstOn_cons, firstOn_cons, agree scope List.mem_cons_self,
      ih fun s member => agree s (List.mem_cons_of_mem scope member)]

end ScopeTree

namespace SourceTree

/-- In a consistent tree there is a way out from every scope: each step goes to an older scope, and
the root is a module. -/
theorem Consistent.wayOut {tree : SourceTree} (h : tree.Consistent) (scope : ScopeId) :
    ∃ way, tree.scopes.WayOut scope way ∧
      (∀ last ∈ way.getLast?, tree.scopes.kind? last = some .module) ∧
      way.Pairwise (fun inner outer => outer.index < inner.index) ∧
      ∀ s ∈ way, s.index ≤ scope.index := by
  obtain ⟨number⟩ := scope
  induction number using Nat.strongRecOn with
  | ind number ih =>
    cases known : tree.scopes.kind? ⟨number⟩ with
    | none => exact ⟨[], .absent (Option.map_eq_none_iff.mp known), by simp, .nil, by simp⟩
    | some kind =>
      cases kind with
      | module => exact ⟨[⟨number⟩], .module known, by simpa using known, by simp, by simp⟩
      | block =>
        have other : (⟨number⟩ : ScopeId) ≠ ScopeTree.root := fun same => by
          rw [same, h.root] at known
          cases known
        obtain ⟨parent, link, older, kind, standing⟩ := h.parent _ _ other known
        obtain ⟨way, rest, ends, ordered, inside⟩ := ih parent.index older
        have nonempty : way ≠ [] := fun empty =>
          absurd (rest.nil_iff.mp empty) (ScopeTree.get?_of_kind? standing)
        have below (s : ScopeId) (member : s ∈ way) : s.index < number :=
          Nat.lt_of_le_of_lt (inside s member) older
        refine ⟨⟨number⟩ :: way, .block known link rest, ?_, .cons below ordered, ?_⟩
        · rw [List.getLast?_cons_of_ne_nil nonempty]
          exact ends
        · exact List.forall_mem_cons.mpr ⟨Nat.le_refl _,
            fun s member => Nat.le_of_lt (below s member)⟩

/-- The way out visits no scope twice. -/
theorem length_le_of_older {way : List ScopeId} {n : Nat}
    (ordered : way.Pairwise fun inner outer => outer.index < inner.index)
    (inside : ∀ s ∈ way, s.index < n) : way.length ≤ n := by
  induction way generalizing n with
  | nil => exact Nat.zero_le n
  | cons scope way ih =>
    obtain ⟨below, ordered⟩ := List.pairwise_cons.mp ordered
    exact Nat.lt_of_le_of_lt (ih ordered below) (inside scope List.mem_cons_self)

theorem Consistent.resolvesAlong {tree : SourceTree} (h : tree.Consistent) (scope : ScopeId)
    (slot : Slot) : ∃ way, tree.scopes.ResolvesAlong scope slot way := by
  obtain ⟨way, out, ends, ordered, inside⟩ := h.wayOut scope
  have short : way.length ≤ tree.scopes.size := by
    cases known : tree.scopes.get? scope with
    | none => simp [out.nil_iff.mpr known]
    | some node =>
      have standing : tree.scopes.kind? scope = some node.kind := by
        rw [ScopeTree.kind?, known]; rfl
      have within := ScopeTree.lt_size_of_kind? standing
      exact length_le_of_older ordered fun s member => Nat.lt_of_le_of_lt (inside s member) within
  have answer : tree.scopes.resolve scope slot = tree.scopes.firstOn slot way :=
    out.resolveWithin slot short
  refine ⟨way, out, fun _ => out.unique, out.nil_iff, ends, ordered, ?_, ?_, answer, ?_⟩
  · rw [answer]
    exact out.finds slot
  · intro steps more
    rw [answer]
    exact out.resolveWithin slot (Nat.le_trans short more)
  · intro other same agree
    have size : other.size = tree.scopes.size := by
      rw [← ScopeTree.length_shape, same, ScopeTree.length_shape]
    rw [answer, ← ScopeTree.firstOn_congr agree]
    exact (out.of_shape same).resolveWithin slot (size ▸ short)

/-- In the tree of a file, before and after any requests, every name is resolved along the way out
from every scope. -/
theorem served_names_resolve_outwards {file : String} {source : List Char}
    {parsed last : TracedTree} {requests : List Request} {answers : List Answer}
    (accepted : parse file source = .ok parsed)
    (served : parsed.serveAll requests = .ok (last, answers)) (scope : ScopeId) (slot : Slot) :
    ∃ way, last.tree.scopes.ResolvesAlong scope slot way := by
  obtain ⟨content, _, rfl⟩ := ofItems_of_parse accepted
  have consistent := consistent_ofItems file (Text.stripPreamble source) content
  have fresh := expansions_ofItems file (Text.stripPreamble source) content
  refine Consistent.resolvesAlong ?_ scope slot
  rw [TracedTree.last_of_served fresh served]
  split
  · exact consistent.expanded
  · exact consistent

/-- A function in a module. From the body of the function, names are looked for in the module too,
and from a number that no scope has nowhere. -/
theorem served_names_resolve_outwards_nested :
    ∃ parsed last answers,
      parse "a.rs" "mod m{fn f(){lazy_static!{static ref A:u8=1;}}}".toList = .ok parsed ∧
      parsed.serveAll [.expandAll] = .ok (last, answers) ∧ ∀ slot,
        last.tree.scopes.ResolvesAlong ⟨2⟩ slot [⟨2⟩, ⟨1⟩] ∧
        last.tree.scopes.ResolvesAlong ⟨3⟩ slot [] := by
  have evaluated :
      (parse "a.rs" "mod m{fn f(){lazy_static!{static ref A:u8=1;}}}".toList).toOption.map
        (fun t => (t.tree.expansionAborts, t.expanded.tree.scopes.shape)) =
      some (false, [(.module, none), (.module, some ⟨0⟩), (.block, some ⟨1⟩)]) := by
    decide +kernel
  obtain ⟨parsed, read, found⟩ := Option.map_eq_some_iff.mp evaluated
  obtain ⟨finished, shape⟩ := Prod.mk.inj found
  have accepted := Attempt.of_toOption read
  have fresh : parsed.tree.expansions = none := by
    obtain ⟨content, _, rfl⟩ := ofItems_of_parse accepted
    exact expansions_ofItems _ _ content
  have served := TracedTree.serveAll_of_fresh fresh List.not_mem_nil []
  rw [finished] at served
  refine ⟨parsed, _, _, accepted, served, fun slot => ⟨?_, ?_⟩⟩
  · obtain ⟨way, along⟩ := served_names_resolve_outwards accepted served ⟨2⟩ slot
    have out : parsed.expanded.tree.scopes.WayOut ⟨2⟩ [⟨2⟩, ⟨1⟩] :=
      .block (by rw [ScopeTree.kind?_eq, shape]; rfl)
        (show _ = some ⟨1⟩ by rw [ScopeTree.parent?_eq, shape]; rfl)
        (.module (by rw [ScopeTree.kind?_eq, shape]; rfl))
    rw [along.only _ out]
    exact along
  · obtain ⟨way, along⟩ := served_names_resolve_outwards accepted served ⟨3⟩ slot
    have missing : parsed.expanded.tree.scopes.get? ⟨3⟩ = none :=
      Option.map_eq_none_iff.mp ((ScopeTree.kind?_eq _ _).trans (by rw [shape]; rfl))
    rw [along.unknown.mpr missing] at along
    exact along

end SourceTree

end MacroExpansion
