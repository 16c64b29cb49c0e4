import Mathlib.Data.List.Induction
import Mathlib.Data.List.Nodup
import MacroExpansion.Tree.Bindings

/-!
# Runs of insertions

Names are inserted into the bindings of a scope one after the other, in any order and namespaces. A
run carries the fact that its bindings are the first insertion of each slot, each kept once. Main
statement: every insertion of a run is answered by whether its slot was inserted before, a refused
one changes nothing, and in the end the first insertions are what is found and what is listed.
-/
namespace MacroExpansion.ScopeBindings

/-- What an insertion leaves behind, and what it answers. -/
def attempt (b : ScopeBindings) (e : BindingEntry) : ScopeBindings × Except AlreadyDefined Unit :=
  match b.insert e.slot e.binding with
  | .ok made => (made, .ok ())
  | .error cause => (b, .error cause)

/-- What a run of insertions leaves behind, and what each of them answers. -/
def insertAll (b : ScopeBindings) :
    List BindingEntry → ScopeBindings × List (Except AlreadyDefined Unit)
  | [] => (b, [])
  | e :: rest =>
    let made := (b.attempt e).1.insertAll rest
    (made.1, (b.attempt e).2 :: made.2)

/-- The first insertion of a slot in a run. -/
def firstInserted (run : List BindingEntry) (slot : Slot) : Option Binding :=
  (run.find? fun e => e.slot = slot).map BindingEntry.binding

/-- The bindings are the first insertions of a run, one for each slot. -/
structure FirstOf (run : List BindingEntry) (b : ScopeBindings) : Prop where
  get : ∀ slot, b.get? slot = firstInserted run slot
  once : (b.entries.map BindingEntry.slot).Nodup

variable {b : ScopeBindings} {e : BindingEntry} {run : List BindingEntry}

/-! ## A single insertion -/

theorem find?_slot_eq_none_iff (entries : List BindingEntry) (slot : Slot) :
    (entries.find? fun e => e.slot = slot) = none ↔ slot ∉ entries.map BindingEntry.slot := by
  simp only [List.find?_eq_none, List.mem_map, not_exists, not_and, decide_eq_true_eq]

theorem attempt_of_bound {old : Binding} (bound : b.get? e.slot = some old) :
    b.attempt e = (b, .error ⟨e.slot⟩) := by
  unfold attempt insert
  rw [bound]

theorem attempt_of_free (free : b.get? e.slot = none) :
    b.attempt e = (⟨b.entries ++ [e]⟩, .ok ()) := by
  unfold attempt insert
  rw [free]

theorem firstInserted_eq_none_iff (run : List BindingEntry) (slot : Slot) :
    firstInserted run slot = none ↔ slot ∉ run.map BindingEntry.slot := by
  rw [firstInserted, Option.map_eq_none_iff, find?_slot_eq_none_iff]

theorem firstInserted_snoc (run : List BindingEntry) (e : BindingEntry) (slot : Slot) :
    firstInserted (run ++ [e]) slot =
      (firstInserted run slot).or (if e.slot = slot then some e.binding else none) := by
  unfold firstInserted
  rw [List.find?_append, Option.map_or]
  congr 1
  by_cases same : e.slot = slot <;> simp [same]

/-- An insertion is refused exactly if the slot was inserted before, and changes nothing then. -/
theorem FirstOf.attempt (h : FirstOf run b) (e : BindingEntry) :
    FirstOf (run ++ [e]) (b.attempt e).1 ∧
    (b.attempt e).2 =
      (if e.slot ∈ run.map BindingEntry.slot then .error ⟨e.slot⟩ else .ok ()) ∧
    (e.slot ∈ run.map BindingEntry.slot → (b.attempt e).1 = b) := by
  cases taken : b.get? e.slot with
  | some old =>
    have before := h.get e.slot
    rw [taken] at before
    have member : e.slot ∈ run.map BindingEntry.slot := by
      by_contra absent
      rw [(firstInserted_eq_none_iff run e.slot).mpr absent] at before
      cases before
    rw [attempt_of_bound taken, if_pos member]
    refine ⟨⟨fun slot => ?_, h.once⟩, rfl, fun _ => rfl⟩
    rw [firstInserted_snoc, h.get]
    split
    next same => rw [← same, ← before, Option.some_or]
    next => exact Option.or_none.symm
  | none =>
    have absent : e.slot ∉ run.map BindingEntry.slot := by
      rw [← firstInserted_eq_none_iff, ← h.get]
      exact taken
    have inserted : b.insert e.slot e.binding = .ok ⟨b.entries ++ [e]⟩ := by
      unfold insert
      rw [taken]
    rw [attempt_of_free taken, if_neg absent]
    refine ⟨⟨fun slot => ?_, ?_⟩, rfl, fun member => absurd member absent⟩
    · rw [get?_insert inserted, firstInserted_snoc, h.get]
      by_cases same : slot = e.slot
      · subst same
        rw [(firstInserted_eq_none_iff run e.slot).mpr absent]
        simp
      · rw [if_neg same, if_neg (Ne.symm same), Option.or_none]
    · rw [get?, Option.map_eq_none_iff, find?_slot_eq_none_iff] at taken
      rw [List.map_append]
      exact h.once.append (List.nodup_singleton _) (by simpa using taken)

/-! ## Whole runs -/

theorem FirstOf.empty : FirstOf [] ScopeBindings.empty where
  get := fun _ => rfl
  once := List.nodup_nil

theorem insertAll_snoc (b : ScopeBindings) (run : List BindingEntry) (e : BindingEntry) :
    b.insertAll (run ++ [e]) =
      let made := b.insertAll run
      ((made.1.attempt e).1, made.2 ++ [(made.1.attempt e).2]) := by
  induction run generalizing b with
  | nil => rfl
  | cons first rest ih => simp only [List.cons_append, insertAll, ih]

theorem firstOf_insertAll (run : List BindingEntry) :
    FirstOf run (ScopeBindings.empty.insertAll run).1 := by
  induction run using List.reverseRecOn with
  | nil => exact .empty
  | append_singleton before e ih =>
    rw [insertAll_snoc]
    exact (ih.attempt e).1

/-- The answers of a run are told insertion by insertion. -/
theorem answers_insertAll (run : List BindingEntry) :
    (ScopeBindings.empty.insertAll run).2.length = run.length ∧
    ∀ n e, run[n]? = some e →
      (ScopeBindings.empty.insertAll run).2[n]? =
        some (if e.slot ∈ (run.take n).map BindingEntry.slot then .error ⟨e.slot⟩ else .ok ()) := by
  induction run using List.reverseRecOn with
  | nil => simp [insertAll]
  | append_singleton before last ih =>
    obtain ⟨long, earlier⟩ := ih
    rw [insertAll_snoc]
    refine ⟨by simp [long], fun n e found => ?_⟩
    by_cases inside : n < before.length
    · rw [List.getElem?_append_left inside] at found
      rw [List.getElem?_append_left (by omega), List.take_append_of_le_length (by omega)]
      exact earlier n e found
    · obtain rfl : n = before.length := by
        have bound := (List.getElem?_eq_some_iff.mp found).1
        rw [List.length_append, List.length_singleton] at bound
        omega
      rw [List.getElem?_concat_length] at found
      cases found
      rw [← long, List.getElem?_concat_length, long, List.take_left, Option.some_inj]
      exact ((firstOf_insertAll before).attempt last).2.1

theorem slot_eq_iff (slot : Slot) (space : Namespace) (name : Ident) :
    slot = ⟨space, name⟩ ↔ slot.space = space ∧ slot.name = name := by
  cases slot
  simp

/-- Among entries with slots of their own, an entry is found by its slot. -/
theorem find?_slot_eq_some_iff {entries : List BindingEntry}
    (once : (entries.map BindingEntry.slot).Nodup) (slot : Slot) (e : BindingEntry) :
    (entries.find? fun other => other.slot = slot) = some e ↔ e ∈ entries ∧ e.slot = slot := by
  constructor
  · intro found
    exact ⟨List.mem_of_find?_eq_some found, by simpa using List.find?_some found⟩
  · rintro ⟨member, rfl⟩
    cases found : entries.find? fun other => other.slot = e.slot with
    | none =>
      rw [find?_slot_eq_none_iff] at found
      exact absurd (List.mem_map_of_mem member) found
    | some other =>
      have same : other.slot = e.slot := by simpa using List.find?_some found
      rw [List.inj_on_of_nodup_map once (List.mem_of_find?_eq_some found) member same]

/-- What is listed for a namespace is what is found in it. -/
theorem FirstOf.mem_inNamespace (h : FirstOf run b) (space : Namespace) (name : Ident)
    (binding : Binding) :
    (name, binding) ∈ b.inNamespace space ↔ firstInserted run ⟨space, name⟩ = some binding := by
  rw [← h.get, get?, Option.map_eq_some_iff, inNamespace, List.mem_filterMap]
  refine exists_congr fun e => ?_
  rw [find?_slot_eq_some_iff h.once, and_assoc]
  refine and_congr_right fun _ => ?_
  by_cases same : e.slot.space = space <;> simp [same, slot_eq_iff]

theorem FirstOf.nodup_inNamespace (h : FirstOf run b) (space : Namespace) :
    ((b.inNamespace space).map Prod.fst).Nodup := by
  have slots : (b.inNamespace space).map Prod.fst =
      ((b.entries.map BindingEntry.slot).filter fun slot => slot.space = space).map Slot.name := by
    unfold inNamespace
    generalize b.entries = entries
    induction entries with
    | nil => rfl
    | cons e rest ih =>
      by_cases same : e.slot.space = space <;> simp [same, ih]
  rw [slots]
  refine (h.once.filter _).map_on fun one first other second same => ?_
  have left : one.space = space := by simpa using (List.mem_filter.mp first).2
  have right : other.space = space := by simpa using (List.mem_filter.mp second).2
  exact (slot_eq_iff one other.space other.name).mpr ⟨left.trans right.symm, same⟩

/-- A name is listed once for a namespace that it was inserted in, and not for others. -/
theorem FirstOf.count_inNamespace (h : FirstOf run b) (space : Namespace) (name : Ident) :
    ((b.inNamespace space).map Prod.fst).count name =
      if ⟨space, name⟩ ∈ run.map BindingEntry.slot then 1 else 0 := by
  have listed : name ∈ (b.inNamespace space).map Prod.fst ↔
      ⟨space, name⟩ ∈ run.map BindingEntry.slot := by
    rw [List.mem_map, ← not_iff_not, ← firstInserted_eq_none_iff,
      Option.eq_none_iff_forall_ne_some]
    constructor
    · exact fun absent binding bound =>
        absent ⟨(name, binding), (h.mem_inNamespace space name binding).mpr bound, rfl⟩
    · rintro unbound ⟨⟨_, binding⟩, member, rfl⟩
      exact unbound binding ((h.mem_inNamespace space _ binding).mp member)
  split
  next inserted =>
    exact List.count_eq_one_of_mem (h.nodup_inNamespace space) (listed.mpr inserted)
  next absent => exact List.count_eq_zero.mpr fun member => absent (listed.mp member)

/-- An insertion of a slot that was inserted before changes nothing in the middle of a run. -/
theorem insertAll_take_succ {n : Nat} (found : run[n]? = some e)
    (again : e.slot ∈ (run.take n).map BindingEntry.slot) :
    (ScopeBindings.empty.insertAll (run.take (n + 1))).1 =
      (ScopeBindings.empty.insertAll (run.take n)).1 := by
  have parts : run.take (n + 1) = run.take n ++ [e] := by
    rw [List.take_add_one, found]
    rfl
  rw [parts, insertAll_snoc]
  exact ((firstOf_insertAll (run.take n)).attempt e).2.2 again

/-- In every run of insertions into empty bindings, an insertion succeeds exactly if none before it
has used its slot; otherwise it is refused with this slot and leaves all bindings as they were. In
the end a slot has the binding of its first insertion. A namespace lists every name that was
inserted in it once, with that binding, and no other names. -/
theorem first_insertions_count (run : List BindingEntry) :
    let after (n : Nat) := (ScopeBindings.empty.insertAll (run.take n)).1
    let final := (ScopeBindings.empty.insertAll run).1
    let answers := (ScopeBindings.empty.insertAll run).2
    answers.length = run.length ∧
    (∀ n e, run[n]? = some e →
      (answers[n]? = some (.ok ()) ↔ e.slot ∉ (run.take n).map BindingEntry.slot) ∧
      (e.slot ∈ (run.take n).map BindingEntry.slot →
        answers[n]? = some (.error ⟨e.slot⟩) ∧ after (n + 1) = after n)) ∧
    (∀ slot, final.get? slot = firstInserted run slot) ∧
    ∀ space,
      (∀ name binding, (name, binding) ∈ final.inNamespace space ↔
        firstInserted run ⟨space, name⟩ = some binding) ∧
      ∀ name, ((final.inNamespace space).map Prod.fst).count name =
        if ⟨space, name⟩ ∈ run.map BindingEntry.slot then 1 else 0 := by
  intro after final answers
  obtain ⟨long, told⟩ := answers_insertAll run
  have first := firstOf_insertAll run
  refine ⟨long, fun n e found => ⟨?_, fun again => ⟨?_, insertAll_take_succ found again⟩⟩,
    first.get, fun space => ⟨first.mem_inNamespace space, first.count_inNamespace space⟩⟩
  · rw [told n e found]
    split
    next again => exact iff_of_false (by simp) (not_not_intro again)
    next new => exact iff_of_true rfl new
  · rw [told n e found, if_pos again]

/-- A name is inserted in two namespaces, and then once more in the first. -/
theorem first_insertions_count_repeated :
    let type : BindingEntry := ⟨⟨.types, ⟨"a"⟩⟩, ⟨.struct, .declared .fake⟩⟩
    let value : BindingEntry := ⟨⟨.values, ⟨"a"⟩⟩, ⟨.function, .declared .fake⟩⟩
    let again : BindingEntry := ⟨⟨.types, ⟨"a"⟩⟩, ⟨.enum, .declared .fake⟩⟩
    let final := ScopeBindings.empty.insertAll [type, value, again]
    final.2[1]? = some (.ok ()) ∧ final.2[2]? = some (.error ⟨again.slot⟩) ∧
      final.1 = (ScopeBindings.empty.insertAll [type, value]).1 ∧
      final.1.get? again.slot = some type.binding ∧
      ((final.1.inNamespace .types).map Prod.fst).count ⟨"a"⟩ = 1 := by
  intro type value again final
  obtain ⟨-, told, get, listed⟩ := first_insertions_count [type, value, again]
  obtain ⟨refused, unchanged⟩ := (told 2 again rfl).2 (by decide)
  refine ⟨(told 1 value rfl).1.mpr (by decide), refused, unchanged, get again.slot, ?_⟩
  rw [(listed .types).2]
  decide

end MacroExpansion.ScopeBindings
