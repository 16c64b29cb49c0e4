import Mathlib.Data.Finset.Card
import Mathlib.Data.List.Forall2
import MacroExpansion.Definition.Shape

/-!
# Addresses of pieces

A piece is addressed within a sequence by its number, and within a group by the address of the group
and its own in there. Addresses compare as lists, which is the order of the source. Repetitions are
not entered: what is in one has addresses of its own. Main statements: whether there is a repetition
and which metavariables there are, in order, tell what has an address.
-/
namespace MacroExpansion.Piece

variable {μ : Type} {p q : Piece μ} {ps content : List (Piece μ)} {address : List Nat} {i : Nat}
  {m : μ}

/-- A piece stands at an address of a sequence. -/
inductive StandsAt : List (Piece μ) → List Nat → Piece μ → Prop where
  | here {ps : List (Piece μ)} {i : Nat} {p : Piece μ} (found : ps[i]? = some p) :
      StandsAt ps [i] p
  | within {ps content : List (Piece μ)} {i : Nat} {address : List Nat} {p : Piece μ}
      (found : ps[i]? = some (.group content)) (stands : StandsAt content address p) :
      StandsAt ps (i :: address) p

namespace StandsAt

theorem not_nil : ¬ StandsAt ps [] q :=
  nofun

/-- At most one piece stands at an address. -/
theorem unique (stands : StandsAt ps address p) (other : StandsAt ps address q) : p = q := by
  induction stands with
  | here found =>
    cases other with
    | here found' => exact Option.some.inj (found.symm.trans found')
    | within _ stands => exact absurd stands not_nil
  | within found stands ih =>
    cases other with
    | here => exact absurd stands not_nil
    | within found' other =>
      cases found.symm.trans found'
      exact ih other

theorem not_empty : ¬ StandsAt ([] : List (Piece μ)) address q := by
  rintro (⟨found⟩ | ⟨found, _⟩) <;> cases found

/-- What stands in the first piece of a sequence. -/
theorem cons_zero_iff : StandsAt (p :: ps) (0 :: address) q ↔
    address = [] ∧ p = q ∨ ∃ content, p = .group content ∧ StandsAt content address q := by
  constructor
  · rintro (⟨⟨⟩⟩ | ⟨⟨⟩, stands⟩)
    · exact .inl ⟨rfl, rfl⟩
    · exact .inr ⟨_, rfl, stands⟩
  · rintro (⟨rfl, rfl⟩ | ⟨content, rfl, stands⟩)
    · exact .here rfl
    · exact .within rfl stands

/-- What stands in the later pieces of a sequence. -/
theorem cons_succ_iff :
    StandsAt (p :: ps) ((i + 1) :: address) q ↔ StandsAt ps (i :: address) q := by
  constructor
  · rintro (⟨found⟩ | ⟨found, stands⟩)
    · exact .here found
    · exact .within found stands
  · rintro (⟨found⟩ | ⟨found, stands⟩)
    · exact .here found
    · exact .within found stands

end StandsAt

theorem exists_standsAt_cons_iff : (∃ address, StandsAt (p :: ps) address q) ↔
    p = q ∨ (∃ content, p = .group content ∧ ∃ address, StandsAt content address q) ∨
      ∃ address, StandsAt ps address q := by
  constructor
  · rintro ⟨_ | ⟨_ | i, address⟩, stands⟩
    · exact absurd stands StandsAt.not_nil
    · rcases StandsAt.cons_zero_iff.mp stands with ⟨_, same⟩ | ⟨content, same, stands⟩
      · exact .inl same
      · exact .inr (.inl ⟨content, same, address, stands⟩)
    · exact .inr (.inr ⟨_, StandsAt.cons_succ_iff.mp stands⟩)
  · rintro (rfl | ⟨content, rfl, address, stands⟩ | ⟨address, stands⟩)
    · exact ⟨[0], .here rfl⟩
    · exact ⟨0 :: address, .within rfl stands⟩
    · cases address with
      | nil => exact absurd stands StandsAt.not_nil
      | cons i address => exact ⟨_, StandsAt.cons_succ_iff.mpr stands⟩

/-! ## Repetitions -/

/-- There is a repetition, in groups of any depth. -/
def Repeats (ps : List (Piece μ)) : Prop :=
  ∃ address content parentheses, StandsAt ps address (.repetition content parentheses)

/-- There is a repetition in a group. -/
def RepeatsInGroup (ps : List (Piece μ)) : Prop :=
  ∃ content, .group content ∈ ps ∧ Repeats content

theorem repeats_nil : ¬ Repeats ([] : List (Piece μ)) :=
  fun ⟨_, _, _, stands⟩ => StandsAt.not_empty stands

theorem repeats_cons_iff : Repeats (p :: ps) ↔
    (∃ content parentheses, p = .repetition content parentheses) ∨
      (∃ content, p = .group content ∧ Repeats content) ∨ Repeats ps := by
  constructor
  · rintro ⟨address, content, parentheses, stands⟩
    rcases exists_standsAt_cons_iff.mp ⟨address, stands⟩ with
      same | ⟨inner, same, address, stands⟩ |
      ⟨address, stands⟩
    · exact .inl ⟨_, _, same⟩
    · exact .inr (.inl ⟨inner, same, address, _, _, stands⟩)
    · exact .inr (.inr ⟨address, _, _, stands⟩)
  · rintro (⟨content, parentheses, rfl⟩ | ⟨inner, rfl, address, content, parentheses, stands⟩ |
      ⟨address, content, parentheses, stands⟩)
    · exact ⟨[0], _, _, .here rfl⟩
    · exact ⟨0 :: address, _, _, .within rfl stands⟩
    · obtain ⟨address, stands⟩ := exists_standsAt_cons_iff.mpr (.inr (.inr ⟨address, stands⟩))
      exact ⟨address, _, _, stands⟩

mutual

theorem hasRepetition_iff (p : Piece μ) : p.hasRepetition = true ↔
    (∃ content parentheses, p = .repetition content parentheses) ∨
      ∃ content, p = .group content ∧ Repeats content := by
  match p with
  | .repetition content parentheses => simp [hasRepetition]
  | .group content => simp [hasRepetition, anyRepetition_iff content]
  | .token _ | .metavariable _ => simp [hasRepetition]

theorem anyRepetition_iff (ps : List (Piece μ)) : anyRepetition ps = true ↔ Repeats ps := by
  match ps with
  | [] => simp [anyRepetition, repeats_nil]
  | p :: ps =>
    rw [anyRepetition, Bool.or_eq_true, hasRepetition_iff p, anyRepetition_iff ps, repeats_cons_iff,
      or_assoc]

end

/-- The repetitions that stand in a sequence itself, in order. -/
def ownRepetitions (ps : List (Piece μ)) : List (Repetition μ) :=
  ps.filterMap fun
    | .repetition content parentheses => some ⟨content, parentheses⟩
    | _ => none

/-- A repetition stands in a sequence itself, or in a group of it. -/
theorem own_or_grouped_of_repeats (repeats : Repeats ps) :
    ownRepetitions ps ≠ [] ∨ RepeatsInGroup ps := by
  obtain ⟨address, content, parentheses, ⟨found⟩ | ⟨found, stands⟩⟩ := repeats
  · left
    intro empty
    have own : (⟨content, parentheses⟩ : Repetition μ) ∈ ownRepetitions ps :=
      List.mem_filterMap.mpr ⟨_, List.mem_of_getElem? found, rfl⟩
    rw [empty] at own
    cases own
  · exact .inr ⟨_, List.mem_of_getElem? found, _, _, _, stands⟩

/-- The repetitions of a sequence are told unless one stands in a group. -/
theorem repetitions_eq_ok (flat : ¬ RepeatsInGroup ps) :
    repetitions ps = .ok (ownRepetitions ps) := by
  induction ps with
  | nil => rfl
  | cons p ps ih =>
    have later : ¬ RepeatsInGroup ps :=
      fun ⟨content, member, repeats⟩ => flat ⟨content, List.mem_cons_of_mem _ member, repeats⟩
    cases p with
    | repetition content parentheses =>
      rw [repetitions, ih later]
      rfl
    | group content =>
      have unrepeated : ¬ anyRepetition content = true := fun any =>
        flat ⟨content, List.mem_cons_self, (anyRepetition_iff content).mp any⟩
      rw [repetitions, if_neg unrepeated, ih later]
      rfl
    | _ => exact ih later

theorem repetitions_eq_error (grouped : RepeatsInGroup ps) :
    repetitions ps = .error .groupedRepetition := by
  induction ps with
  | nil =>
    obtain ⟨_, member, _⟩ := grouped
    cases member
  | cons p ps ih =>
    obtain ⟨content, member, repeats⟩ := grouped
    rcases List.mem_cons.mp member with rfl | member
    · rw [repetitions, if_pos ((anyRepetition_iff content).mpr repeats)]
    · have later := ih ⟨content, member, repeats⟩
      cases p with
      | repetition _ _ =>
        rw [repetitions, later]
        rfl
      | group _ =>
        rw [repetitions, later]
        split <;> rfl
      | _ => exact later

/-! ## Metavariables -/

/-- These are the metavariables outside of repetitions, in the order of their addresses. -/
structure Addressed (ps : List (Piece μ)) (ms : List μ) (addresses : List (List Nat)) : Prop where
  ordered : addresses.Pairwise (· < ·)
  each : List.Forall₂ (fun address m => StandsAt ps address (.metavariable m)) addresses ms
  all : ∀ address m, StandsAt ps address (.metavariable m) → address ∈ addresses

namespace Addressed

variable {own ms : List μ} {inner addresses : List (List Nat)}

theorem nil : Addressed ([] : List (Piece μ)) [] [] :=
  ⟨.nil, .nil, fun _ _ stands => absurd stands StandsAt.not_empty⟩

theorem stands (addressed : Addressed ps ms addresses) (member : address ∈ addresses) :
    ∃ m ∈ ms, StandsAt ps address (.metavariable m) := by
  have each := addressed.each
  clear addressed
  induction each with
  | nil => cases member
  | @cons _ m _ _ first _ ih =>
    rcases List.mem_cons.mp member with rfl | member
    · exact ⟨m, List.mem_cons_self, first⟩
    · obtain ⟨m, among, stands⟩ := ih member
      exact ⟨m, List.mem_cons_of_mem _ among, stands⟩

/-- The metavariables of a piece stand before those of the later pieces. -/
theorem cons (ordered : inner.Pairwise (· < ·))
    (each : List.Forall₂ (fun address m => StandsAt (p :: ps) (0 :: address) (.metavariable m))
      inner own)
    (all : ∀ address m, StandsAt (p :: ps) (0 :: address) (.metavariable m) → address ∈ inner)
    (later : Addressed ps ms addresses) :
    Addressed (p :: ps) (own ++ ms)
      (inner.map (0 :: ·) ++ addresses.map (·.modifyHead (· + 1))) where
  ordered := by
    refine List.pairwise_append.mpr ⟨?_, ?_, ?_⟩
    · exact List.pairwise_map.mpr (ordered.imp fun less =>
        List.cons_lt_cons_iff.mpr (.inr ⟨rfl, less⟩))
    · refine List.pairwise_map.mpr (later.ordered.imp fun {a b} less => ?_)
      cases a <;> cases b <;> simp_all [List.cons_lt_cons_iff]
    · intro a first b second
      obtain ⟨a, _, rfl⟩ := List.mem_map.mp first
      obtain ⟨b, member, rfl⟩ := List.mem_map.mp second
      cases b with
      | nil =>
        obtain ⟨_, _, stands⟩ := later.stands member
        exact absurd stands StandsAt.not_nil
      | cons i b => exact List.cons_lt_cons_iff.mpr (.inl (Nat.succ_pos i))
  each := by
    refine List.rel_append ?_ ?_
    · exact List.forall₂_map_left_iff.mpr each
    · refine List.forall₂_map_left_iff.mpr (later.each.imp fun address m stands => ?_)
      cases address with
      | nil => exact absurd stands StandsAt.not_nil
      | cons i address => exact StandsAt.cons_succ_iff.mpr stands
  all := by
    rintro (_ | ⟨_ | i, address⟩) m stands
    · exact absurd stands StandsAt.not_nil
    · exact List.mem_append_left _ (List.mem_map_of_mem (all address m stands))
    · refine List.mem_append_right _ (List.mem_map.mpr ⟨i :: address, ?_, rfl⟩)
      exact later.all _ m (StandsAt.cons_succ_iff.mp stands)

end Addressed

/-- The metavariables of a sequence are those that stand in it, in order. -/
theorem exists_addressed (ps : List (Piece μ)) :
    ∃ addresses, Addressed ps (metavariables ps) addresses := by
  match ps with
  | [] => exact ⟨[], .nil⟩
  | .metavariable m :: ps =>
    obtain ⟨addresses, later⟩ := exists_addressed ps
    refine ⟨_, .cons (List.pairwise_singleton _ []) (.cons (.here rfl) .nil) ?_ later⟩
    intro address _ stands
    rcases StandsAt.cons_zero_iff.mp stands with ⟨rfl, _⟩ | ⟨_, other, _⟩
    · exact List.mem_singleton.mpr rfl
    · cases other
  | .group content :: ps =>
    obtain ⟨inner, within⟩ := exists_addressed content
    obtain ⟨addresses, later⟩ := exists_addressed ps
    refine ⟨_, .cons within.ordered (within.each.imp fun _ _ stands => .within rfl stands) ?_ later⟩
    intro address m stands
    rcases StandsAt.cons_zero_iff.mp stands with ⟨_, other⟩ | ⟨_, same, stands⟩
    · cases other
    · cases same
      exact within.all address m stands
  | .token _ :: ps | .repetition _ _ :: ps =>
    obtain ⟨addresses, later⟩ := exists_addressed ps
    refine ⟨_, .cons .nil .nil ?_ later⟩
    intro address m stands
    rcases StandsAt.cons_zero_iff.mp stands with ⟨_, other⟩ | ⟨_, other, _⟩ <;> cases other

/-- The metavariable at an address that is before those of all others. -/
structure FirstMetavariable (ps : List (Piece μ)) (m : μ) (address : List Nat) : Prop where
  stands : StandsAt ps address (.metavariable m)
  least : ∀ other m', StandsAt ps other (.metavariable m') → ¬ other < address

/-- Metavariables stand at that many addresses. -/
def HasMetavariables (ps : List (Piece μ)) (count : Nat) : Prop :=
  ∃ addresses : Finset (List Nat), addresses.card = count ∧
    ∀ address, address ∈ addresses ↔ ∃ m, StandsAt ps address (.metavariable m)

theorem mem_metavariables (stands : StandsAt ps address (.metavariable m)) :
    m ∈ metavariables ps := by
  obtain ⟨addresses, addressed⟩ := exists_addressed ps
  obtain ⟨_, among, stands'⟩ := addressed.stands (addressed.all address m stands)
  cases stands.unique stands'
  exact among

theorem metavariables_eq_nil_iff :
    metavariables ps = [] ↔ ∀ address m, ¬ StandsAt ps address (.metavariable m) := by
  constructor
  · intro empty address m stands
    exact absurd (empty ▸ mem_metavariables stands) List.not_mem_nil
  · intro nowhere
    obtain ⟨addresses, addressed⟩ := exists_addressed ps
    cases addresses with
    | nil => exact List.length_eq_zero_iff.mp addressed.each.length_eq.symm
    | cons address _ =>
      obtain ⟨m, _, stands⟩ := addressed.stands List.mem_cons_self
      exact absurd stands (nowhere address m)

theorem firstMetavariable_of_cons {ms : List μ} (found : metavariables ps = m :: ms) :
    ∃ address, FirstMetavariable ps m address := by
  obtain ⟨addresses, ordered, each, all⟩ := exists_addressed ps
  rw [found] at each
  cases each with
  | @cons address _ later _ stands _ =>
    refine ⟨address, stands, fun other m' stands' less => ?_⟩
    rcases List.mem_cons.mp (all other m' stands') with rfl | member
    · exact List.lt_irrefl other less
    · exact List.lt_asymm less ((List.pairwise_cons.mp ordered).1 other member)

theorem hasMetavariables_length (ps : List (Piece μ)) :
    HasMetavariables ps (metavariables ps).length := by
  obtain ⟨addresses, addressed⟩ := exists_addressed ps
  have once : addresses.Nodup := by
    refine addressed.ordered.imp ?_
    rintro address _ less rfl
    exact List.lt_irrefl address less
  refine ⟨addresses.toFinset, ?_, fun address => ?_⟩
  · rw [List.toFinset_card_of_nodup once, addressed.each.length_eq]
  · rw [List.mem_toFinset]
    constructor
    · intro member
      obtain ⟨m, _, stands⟩ := addressed.stands member
      exact ⟨m, stands⟩
    · rintro ⟨m, stands⟩
      exact addressed.all address m stands

theorem HasMetavariables.unique {n k : Nat} (counted : HasMetavariables ps n)
    (other : HasMetavariables ps k) : n = k := by
  obtain ⟨addresses, rfl, each⟩ := counted
  obtain ⟨addresses', rfl, each'⟩ := other
  rw [Finset.ext fun address => (each address).trans (each' address).symm]

theorem FirstMetavariable.unique {m' : μ} {address' : List Nat}
    (first : FirstMetavariable ps m address)
    (other : FirstMetavariable ps m' address') : m = m' := by
  have same : address = address' :=
    List.le_antisymm (List.not_lt.mp (first.least _ _ other.stands))
      (List.not_lt.mp (other.least _ _ first.stands))
  subst same
  cases first.stands.unique other.stands
  rfl

end MacroExpansion.Piece
