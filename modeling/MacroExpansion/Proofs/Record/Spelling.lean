import Mathlib.Data.List.Forall2
import MacroExpansion.Record.Codec

/-!
# Spellings of records

A record is written by the names of its fields, in any order and among unknown ones, or as the list
of its fields; an optional field without a value may be left out by name. `Spelled` says so on its
own, with what each field admits. Main statement: the spellings of a record are just the values
whose columns its fields admit.
-/
namespace MacroExpansion.Record

/-! ## Parts of a value -/

/-- A value is another one, or stands in it. -/
inductive Datum.Part (p : Datum) : Datum → Prop where
  | whole : Part p p
  | item {d : Datum} {items : List Datum} (member : d ∈ items) (within : Part p d) :
      Part p (.list items)
  | entry {name : String} {d : Datum} {entries : List (String × Datum)}
      (member : (name, d) ∈ entries) (within : Part p d) : Part p (.fields entries)

/-- Each name is written once, on every level. -/
def Datum.NamesOnce (d : Datum) : Prop :=
  ∀ entries, (Datum.fields entries).Part d → (entries.map Prod.fst).Nodup

variable {d : Datum} {items : List Datum} {entries : List (String × Datum)}
  {names : List String} {name : String} {columns : List (Option Datum)}

theorem Datum.one_le_depth (d : Datum) : 1 ≤ d.depth := by
  cases d <;> simp [depth]

theorem Datum.depth_le_depthOfItems (member : d ∈ items) : d.depth ≤ depthOfItems items := by
  induction items with
  | nil => cases member
  | cons first later ih =>
    rw [depthOfItems]
    rcases List.mem_cons.mp member with rfl | member
    · exact Nat.le_max_left _ _
    · exact Nat.le_trans (ih member) (Nat.le_max_right _ _)

theorem Datum.depth_le_depthOfEntries (member : (name, d) ∈ entries) :
    d.depth ≤ depthOfEntries entries := by
  induction entries with
  | nil => cases member
  | cons first later ih =>
    obtain ⟨_, content⟩ := first
    rw [depthOfEntries]
    rcases List.mem_cons.mp member with same | member
    · cases same
      exact Nat.le_max_left _ _
    · exact Nat.le_trans (ih member) (Nat.le_max_right _ _)

/-! ## Columns -/

theorem mem_of_lookup (found : entries.lookup name = some d) : (name, d) ∈ entries := by
  obtain ⟨before, after, rfl, _⟩ := List.lookup_eq_some_iff.mp found
  simp

/-- What is found under a name stands one level deeper. -/
theorem of_mem_columns (found : d.columns? names = some columns) {content : Datum}
    (member : some content ∈ columns) :
    content.depth < d.depth ∧ ∀ p : Datum, p.Part content → p.Part d := by
  cases d with
  | fields entries =>
    cases found
    obtain ⟨name, _, held⟩ := List.mem_map.mp member
    have among := mem_of_lookup held
    exact ⟨Nat.lt_succ_of_le (Datum.depth_le_depthOfEntries among), fun _ within =>
      .entry among within⟩
  | list items =>
    rw [Datum.columns?] at found
    split at found
    · cases found
      obtain ⟨_, among, same⟩ := List.mem_map.mp member
      cases same
      exact ⟨Nat.lt_succ_of_le (Datum.depth_le_depthOfItems among), fun _ within =>
        .item among within⟩
    · cases found
  | _ => cases found

theorem Datum.NamesOnce.column (once : d.NamesOnce) (found : d.columns? names = some columns)
    {content : Datum} (member : some content ∈ columns) : content.NamesOnce :=
  fun _ within => once _ ((of_mem_columns found member).2 _ within)

/-! ## Records -/

/-- What some entries hold under a name. -/
inductive Holds (entries : List (String × Datum)) (name : String) : Option Datum → Prop where
  | entry {d : Datum} (member : (name, d) ∈ entries) : Holds entries name (some d)
  | missing (absent : ∀ d, (name, d) ∉ entries) : Holds entries name none

/-- What may be written for a value that may be missing: nothing or a null, if it is. -/
def Optionally (admits : α → Datum → Prop) : Option α → Option Datum → Prop
  | none, content => content = none ∨ content = some .null
  | some a, content => ∃ d, content = some d ∧ admits a d

/-- A field of a record with a certain value: its name, and what may be written in it. -/
structure Field where
  name : String
  Admits : Option Datum → Prop

namespace Field

/-- A field that has to be written. -/
def required (name : String) (admits : Datum → Prop) : Field :=
  ⟨name, fun content => ∃ d, content = some d ∧ admits d⟩

/-- A field that may be left out if it has no value. -/
def optional (name : String) (admits : α → Datum → Prop) (value : Option α) : Field :=
  ⟨name, Optionally admits value⟩

end Field

/-- The values that a record with these fields may be written as. -/
inductive Spelled (fields : List Field) : Datum → Prop where
  /-- In any order, and there may be other fields. -/
  | byName {entries : List (String × Datum)} (once : (entries.map Prod.fst).Nodup)
      (each : ∀ f ∈ fields, ∃ content, Holds entries f.name content ∧ f.Admits content) :
      Spelled fields (.fields entries)
  | inOrder {items : List Datum} (each : List.Forall₂ (fun f d => f.Admits (some d)) fields items) :
      Spelled fields (.list items)

/-- A record with its fields in order, each under its name. -/
theorem spelled_fields {fields : List Field} (once : (entries.map Prod.fst).Nodup)
    (each : List.Forall₂ (fun f e => f.name = e.1 ∧ f.Admits (some e.2)) fields entries) :
    Spelled fields (.fields entries) := by
  refine .byName once fun f member => ?_
  have held : ∃ d, (f.name, d) ∈ entries ∧ f.Admits (some d) := by
    clear once
    induction each with
    | nil => cases member
    | @cons _ e _ _ first _ ih =>
      rcases List.mem_cons.mp member with rfl | member
      · exact ⟨e.2, first.1 ▸ List.mem_cons_self, first.2⟩
      · obtain ⟨d, among, admits⟩ := ih member
        exact ⟨d, List.mem_cons_of_mem _ among, admits⟩
  obtain ⟨d, among, admits⟩ := held
  exact ⟨_, .entry among, admits⟩

theorem Holds.lookup {content : Option Datum} (once : (entries.map Prod.fst).Nodup)
    (holds : Holds entries name content) : entries.lookup name = content := by
  cases holds with
  | entry member =>
    induction entries with
    | nil => cases member
    | cons first later ih =>
      obtain ⟨unlike, once⟩ := List.nodup_cons.mp once
      rcases List.mem_cons.mp member with rfl | member
      · exact List.lookup_cons_self
      · have other : name ≠ first.1 := by
          rintro rfl
          exact unlike (List.mem_map.mpr ⟨_, member, rfl⟩)
        rw [List.lookup_cons, beq_false_of_ne other]
        exact ih once member
  | missing absent =>
    refine List.lookup_eq_none_iff.mpr fun entry member => ?_
    refine bne_iff_ne.mpr ?_
    rintro rfl
    exact absent entry.2 member

theorem holds_lookup (entries : List (String × Datum)) (name : String) :
    Holds entries name (entries.lookup name) := by
  cases found : entries.lookup name with
  | some d => exact .entry (mem_of_lookup found)
  | none =>
    refine .missing fun d member => ?_
    have unlike := List.lookup_eq_none_iff.mp found _ member
    simp at unlike

/-- A record has its fields as columns, however it is written. -/
theorem Spelled.columns? {fields : List Field} (spelled : Spelled fields d) :
    ∃ columns, d.columns? (fields.map Field.name) = some columns ∧
      List.Forall₂ Field.Admits fields columns := by
  cases spelled with
  | @byName entries once each =>
    refine ⟨_, rfl, List.forall₂_map_right_iff.mpr (List.forall₂_map_right_iff.mpr ?_)⟩
    refine List.forall₂_same.mpr fun f member => ?_
    obtain ⟨content, holds, admits⟩ := each f member
    rwa [holds.lookup once]
  | @inOrder items each =>
    refine ⟨items.map some, ?_, List.forall₂_map_right_iff.mpr each⟩
    rw [Datum.columns?, List.length_map, if_pos each.length_eq.symm]

/-- A value that has the columns of a record is one of its spellings. -/
theorem spelled_of_columns? {fields : List Field} (once : d.NamesOnce)
    (found : d.columns? (fields.map Field.name) = some columns)
    (admitted : List.Forall₂ Field.Admits fields columns) : Spelled fields d := by
  cases d with
  | fields entries =>
    cases found
    refine .byName (once entries .whole) fun f member => ⟨_, holds_lookup entries f.name, ?_⟩
    exact List.forall₂_same.mp
      (List.forall₂_map_right_iff.mp (List.forall₂_map_right_iff.mp admitted)) f member
  | list items =>
    rw [Datum.columns?] at found
    split at found
    · cases found
      exact .inOrder (List.forall₂_map_right_iff.mp admitted)
    · cases found
  | _ => cases found

/-! ## Numbers, texts and tags -/

variable {n : Nat} {s tag : String}

/-- A number, within the bound for numbers. -/
def Numeral (n : Nat) (d : Datum) : Prop :=
  d = .natural n ∧ n < numberLimit

/-- A variant without content: its tag, alone or with a null. -/
def Tagged (tag : String) (d : Datum) : Prop :=
  d = .text tag ∨ d = .fields [(tag, .null)]

theorem number?_eq_some_iff : number? d = some n ↔ Numeral n d := by
  cases d with
  | natural m =>
    rw [number?, Numeral, Option.ite_none_right_eq_some, Datum.natural.injEq, Option.some.injEq]
    constructor
    · rintro ⟨bound, rfl⟩
      exact ⟨rfl, bound⟩
    · rintro ⟨rfl, bound⟩
      exact ⟨bound, rfl⟩
  | _ => simp [number?, Numeral]

theorem text?_eq_some_iff : text? d = some s ↔ d = .text s := by
  cases d <;> simp [text?]

/-- A variant is written as its tag, or as its tag with its content. -/
theorem variant?_eq_some_iff {content : Option Datum} :
    d.variant? = some (tag, content) ↔
      d = .text tag ∧ content = none ∨ ∃ c, d = .fields [(tag, c)] ∧ content = some c := by
  fun_cases Datum.variant? d with
  | case1 | case2 => simp [eq_comm]
  | case3 => simp_all

theorem unitTag?_eq_some_iff : d.unitTag? = some tag ↔ Tagged tag d := by
  unfold Datum.unitTag? Tagged
  split
  next found =>
    rcases variant?_eq_some_iff.mp found with ⟨rfl, _⟩ | ⟨_, _, same⟩
    · simp
    · cases same
  next found =>
    rcases variant?_eq_some_iff.mp found with ⟨_, same⟩ | ⟨_, rfl, same⟩
    · cases same
    · cases same
      simp
  next without withNull =>
    constructor
    · intro same
      cases same
    · rintro (rfl | rfl)
      · exact absurd rfl (without _)
      · exact absurd rfl (withNull _)

theorem list?_eq_some_iff {items : List Datum} : list? d = some items ↔ d = .list items := by
  cases d <;> simp [list?]

theorem mapM_text?_eq_some_iff {items : List Datum} {texts : List String} :
    items.mapM text? = some texts ↔ items = texts.map Datum.text := by
  induction items generalizing texts with
  | nil => cases texts <;> simp
  | cons d items ih =>
    simp only [List.mapM_cons, Option.bind_eq_bind, Option.bind_eq_some_iff, text?_eq_some_iff, ih,
      Option.pure_def, Option.some.injEq]
    constructor
    · rintro ⟨s, rfl, texts, rfl, rfl⟩
      rfl
    · intro same
      cases texts with
      | nil => cases same
      | cons s texts =>
        obtain ⟨rfl, rfl⟩ := List.cons.inj same
        exact ⟨s, rfl, texts, rfl, rfl⟩

/-- A value among others is read by its tag, if they have different tags. -/
theorem oneOf?_eq_some_iff {tag : α → String} {values : List α} {a : α}
    (found : values.find? (fun v => tag v == tag a) = some a) :
    oneOf? tag values d = some a ↔ Tagged (tag a) d := by
  rw [oneOf?, Option.bind_eq_some_iff]
  constructor
  · rintro ⟨t, read, found⟩
    obtain rfl : tag a = t := by simpa using List.find?_some found
    exact unitTag?_eq_some_iff.mp read
  · exact fun tagged => ⟨tag a, unitTag?_eq_some_iff.mpr tagged, found⟩

variable {read : Datum → Option α} {spelled : α → Datum → Prop} {value : Option α}
  {content : Option Datum}

theorem optional?_some (other : d ≠ .null) : optional? read (some d) = (read d).map some := by
  cases d with
  | null => exact absurd rfl other
  | _ => rfl

/-- What may be written for a value that may be missing is read as it. -/
theorem optional?_of_optionally (nothing : read .null = none)
    (reads : ∀ a d, value = some a → spelled a d → read d = some a)
    (admitted : Optionally spelled value content) :
    optional? read content = some value := by
  cases value with
  | none => rcases admitted with rfl | rfl <;> rfl
  | some a =>
    obtain ⟨d, rfl, written⟩ := admitted
    have here := reads a d rfl written
    have other : d ≠ .null := by
      rintro rfl
      rw [nothing] at here
      cases here
    rw [optional?_some other, here, Option.map_some]

/-- Readers that agree on what an optional field holds read it alike. -/
theorem optional?_congr {read' : Datum → Option α}
    (same : ∀ d, content = some d → read d = read' d) :
    optional? read content = optional? read' content := by
  fun_cases optional? read content with
  | case1 | case2 => rfl
  | case3 d other => rw [optional?_some other, same d rfl]

theorem optionally_of_optional?
    (spells : ∀ a d, value = some a → content = some d → read d = some a → spelled a d)
    (found : optional? read content = some value) :
    Optionally spelled value content := by
  fun_cases optional? read content with
  | case1 => cases found; exact .inl rfl
  | case2 => cases found; exact .inr rfl
  | case3 d other =>
    rw [optional?_some other] at found
    obtain ⟨a, here, rfl⟩ := Option.map_eq_some_iff.mp found
    exact ⟨d, rfl, spells a d rfl rfl here⟩

end MacroExpansion.Record
