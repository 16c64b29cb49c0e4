import MacroExpansion.Proofs.Record.Spelling

/-!
# Reading records back

For each type of the library that is written as a data value, `SpelledBy` tells which values it may
be written as. Main statement: what is written for a value is one of its spellings, and every
spelling, on every level, is read as that value. If each name is written once, nothing else is.
-/
namespace MacroExpansion

open Record

/-! ## Names, numbers and tags -/

def Ident.SpelledBy (i : Ident) (d : Datum) : Prop :=
  d = .text i.name

def ScopeId.SpelledBy (s : ScopeId) (d : Datum) : Prop :=
  Numeral s.index d

def Namespace.SpelledBy (n : Namespace) (d : Datum) : Prop :=
  Tagged n.text d

def ElementKind.SpelledBy (k : ElementKind) (d : Datum) : Prop :=
  Tagged k.text d

def InvocationContext.SpelledBy : InvocationContext → Datum → Prop
  | module scope, d => ∃ content, d = .fields [("Module", content)] ∧ scope.SpelledBy content
  | block scope, d => ∃ content, d = .fields [("Block", content)] ∧ scope.SpelledBy content
  | expression, d => Tagged "Expression" d

variable {d : Datum}

theorem Ident.decode?_eq_some_iff {i : Ident} : decode? d = some i ↔ i.SpelledBy d := by
  rw [decode?, Option.map_eq_some_iff]
  constructor
  · rintro ⟨s, read, rfl⟩
    exact text?_eq_some_iff.mp read
  · exact fun spelled => ⟨i.name, text?_eq_some_iff.mpr spelled, rfl⟩

theorem ScopeId.decode?_eq_some_iff {s : ScopeId} : decode? d = some s ↔ s.SpelledBy d := by
  rw [decode?, Option.map_eq_some_iff]
  constructor
  · rintro ⟨n, read, rfl⟩
    exact number?_eq_some_iff.mp read
  · exact fun spelled => ⟨s.index, number?_eq_some_iff.mpr spelled, rfl⟩

theorem Namespace.decode?_eq_some_iff {n : Namespace} : decode? d = some n ↔ n.SpelledBy d :=
  oneOf?_eq_some_iff (by cases n <;> rfl)

theorem ElementKind.decode?_eq_some_iff {k : ElementKind} : decode? d = some k ↔ k.SpelledBy d :=
  oneOf?_eq_some_iff (by cases k <;> rfl)

theorem InvocationContext.decode?_eq_some_iff {c : InvocationContext} :
    decode? d = some c ↔ c.SpelledBy d := by
  constructor
  · intro read
    unfold decode? at read
    split at read
    next found =>
      obtain ⟨scope, inside, rfl⟩ := Option.map_eq_some_iff.mp read
      rcases variant?_eq_some_iff.mp found with ⟨_, same⟩ | ⟨content, rfl, same⟩ <;> cases same
      exact ⟨_, rfl, ScopeId.decode?_eq_some_iff.mp inside⟩
    next found =>
      obtain ⟨scope, inside, rfl⟩ := Option.map_eq_some_iff.mp read
      rcases variant?_eq_some_iff.mp found with ⟨_, same⟩ | ⟨content, rfl, same⟩ <;> cases same
      exact ⟨_, rfl, ScopeId.decode?_eq_some_iff.mp inside⟩
    next found =>
      cases read
      rcases variant?_eq_some_iff.mp found with ⟨rfl, _⟩ | ⟨_, _, same⟩
      · exact .inl rfl
      · cases same
    next found =>
      cases read
      rcases variant?_eq_some_iff.mp found with ⟨_, same⟩ | ⟨_, rfl, same⟩ <;> cases same
      exact .inr rfl
    next => cases read
  · intro spelled
    cases c with
    | module scope =>
      obtain ⟨content, rfl, inside⟩ := spelled
      exact Option.map_eq_some_iff.mpr ⟨scope, ScopeId.decode?_eq_some_iff.mpr inside, rfl⟩
    | block scope =>
      obtain ⟨content, rfl, inside⟩ := spelled
      exact Option.map_eq_some_iff.mpr ⟨scope, ScopeId.decode?_eq_some_iff.mpr inside, rfl⟩
    | expression => rcases spelled with rfl | rfl <;> rfl

/-- The number of a scope is within the bound for numbers. -/
def ScopeId.Fits (s : ScopeId) : Prop :=
  s.index < numberLimit

def InvocationContext.Fits (c : InvocationContext) : Prop :=
  ∀ s ∈ c.scope?, s.Fits

theorem InvocationContext.spelledBy_encode {c : InvocationContext} (fits : c.Fits) :
    c.SpelledBy c.encode := by
  cases c with
  | module scope | block scope => exact ⟨_, rfl, rfl, fits scope rfl⟩
  | expression => exact .inl rfl

/-! ## Locations -/

/-- The numbers of a place are within the bound for numbers. -/
structure Place.Fits (p : Place) : Prop where
  startLine : p.startLine < numberLimit
  startColumn : p.startColumn < numberLimit
  endLine : p.endLine < numberLimit
  endColumn : p.endColumn < numberLimit

def Span.Fits (s : Span) : Prop :=
  ∀ p ∈ s.place :: s.outer, p.Fits

namespace Span

/-- The fields of a place, with the field of its invocation. -/
def fieldsAt (p : Place) (invocation : Option Datum → Prop) : List Field :=
  [.required "source_file" (· = .text p.file), ⟨"macro_invocation", invocation⟩,
    .required "start_line" (Numeral p.startLine), .required "start_column" (Numeral p.startColumn),
    .required "end_line" (Numeral p.endLine), .required "end_column" (Numeral p.endColumn)]

/-- What is written for the invocations of a place: nothing, or the first of them, with the others
as its own. -/
def Invoked : List Place → Option Datum → Prop
  | [], content => content = none ∨ content = some .null
  | p :: ps, content => ∃ d, content = some d ∧ Spelled (fieldsAt p (Invoked ps)) d

def SpelledBy (s : Span) (d : Datum) : Prop :=
  Spelled (fieldsAt s.place (Invoked s.outer)) d

variable {s : Span} {n : Nat}

/-- A location is read column by column. -/
theorem decodeWithin?_eq_some_iff :
    decodeWithin? (n + 1) d = some s ↔
      ∃ columns, d.columns? fieldNames = some columns ∧ List.Forall₂ Field.Admits
        (fieldsAt s.place fun content => optional? (decodeWithin? n) content = some s.invocation?)
        columns := by
  rw [decodeWithin?]
  constructor
  · intro read
    split at read
    next found =>
      simp only [Option.bind_eq_bind, Option.bind_eq_some_iff, Option.pure_def,
        number?_eq_some_iff, text?_eq_some_iff] at read
      obtain ⟨_, rfl, outer, read, _, startLine, _, startColumn, _, endLine, _, endColumn, same⟩ :=
        read
      -- the invocations are split as `invocation?` splits them
      rcases outer with _ | ⟨_, _⟩ <;>
      · cases same
        exact ⟨_, found, .cons ⟨_, rfl, rfl⟩ (.cons read (.cons ⟨_, rfl, startLine⟩
          (.cons ⟨_, rfl, startColumn⟩ (.cons ⟨_, rfl, endLine⟩
            (.cons ⟨_, rfl, endColumn⟩ .nil)))))⟩
    next => cases read
  · rintro ⟨columns, found, admitted⟩
    rcases admitted with _ | ⟨⟨_, rfl, rfl⟩, _ | ⟨read, _ | ⟨⟨_, rfl, startLine⟩,
      _ | ⟨⟨_, rfl, startColumn⟩, _ | ⟨⟨_, rfl, endLine⟩, _ | ⟨⟨_, rfl, endColumn⟩, _ | _⟩⟩⟩⟩⟩⟩
    have read : optional? (decodeWithin? n) _ = some s.invocation? := read
    rw [found]
    simp only [text?, read, number?_eq_some_iff.mpr startLine, number?_eq_some_iff.mpr startColumn,
      number?_eq_some_iff.mpr endLine, number?_eq_some_iff.mpr endColumn]
    obtain ⟨place, _ | ⟨p, ps⟩⟩ := s <;> rfl

/-- As many levels as a value has are enough to read it. -/
theorem decodeWithin?_enough {m : Nat} (enough : d.depth ≤ n) (also : d.depth ≤ m) :
    decodeWithin? n d = decodeWithin? m d := by
  induction n generalizing m d with
  | zero => exact absurd (Datum.one_le_depth d) (by omega)
  | succ n ih =>
    obtain ⟨m, rfl⟩ : ∃ k, m = k + 1 :=
      Nat.exists_eq_add_one.mpr (Nat.lt_of_lt_of_le (Datum.one_le_depth d) also)
    rw [decodeWithin?, decodeWithin?]
    split
    next file invocation _ _ _ _ found =>
      have same : optional? (decodeWithin? n) invocation = optional? (decodeWithin? m) invocation :=
        optional?_congr fun content held => by
          have deeper := (of_mem_columns found (by simp [held] : some content ∈ _)).1
          exact ih (by omega) (by omega)
      rw [same]
    next => rfl

/-- What is admitted of a place hangs on its invocation in one column only. -/
theorem admits_fieldsAt {p : Place} {invocation invocation' : Option Datum → Prop}
    {columns : List (Option Datum)}
    (implies : ∀ content ∈ columns, invocation content → invocation' content)
    (admitted : List.Forall₂ Field.Admits (fieldsAt p invocation) columns) :
    List.Forall₂ Field.Admits (fieldsAt p invocation') columns := by
  rcases admitted with _ | ⟨file, _ | ⟨invoked, rest⟩⟩
  exact .cons file (.cons (implies _ (by simp) invoked) rest)

theorem decode?_eq_some_iff :
    decode? d = some s ↔ ∃ columns, d.columns? fieldNames = some columns ∧ List.Forall₂ Field.Admits
      (fieldsAt s.place fun content => optional? decode? content = some s.invocation?) columns := by
  have read : decode? d = decodeWithin? (d.depth + 1) d :=
    decodeWithin?_enough (Nat.le_refl _) (Nat.le_succ _)
  have same {columns content} (found : d.columns? fieldNames = some columns)
      (member : content ∈ columns) :
      optional? (decodeWithin? d.depth) content = optional? decode? content :=
    optional?_congr fun inner held => by
      have deeper := (of_mem_columns found (held ▸ member)).1
      exact decodeWithin?_enough (by omega) (Nat.le_refl _)
  rw [read, decodeWithin?_eq_some_iff]
  constructor <;> rintro ⟨columns, found, admitted⟩ <;>
    refine ⟨columns, found, admits_fieldsAt (fun content member => ?_) admitted⟩
  · rw [same found member]; exact id
  · rw [same found member]; exact id

theorem invoked_iff (s : Span) (content : Option Datum) :
    Invoked s.outer content ↔ Optionally SpelledBy s.invocation? content := by
  obtain ⟨place, _ | ⟨p, ps⟩⟩ := s <;> rfl

/-- Every spelling of a location, however its invocations are spelled, is read as it. -/
theorem decode?_of_spelledBy (spelled : s.SpelledBy d) : decode? d = some s := by
  obtain ⟨place, outer⟩ := s
  induction outer generalizing place d with
  | nil =>
    obtain ⟨columns, found, admitted⟩ := spelled.columns?
    refine decode?_eq_some_iff.mpr
      ⟨columns, found, admits_fieldsAt (fun _ _ invoked => ?_) admitted⟩
    exact optional?_of_optionally rfl (fun _ _ missing => by cases missing)
      ((invoked_iff ⟨place, []⟩ _).mp invoked)
  | cons p ps ih =>
    obtain ⟨columns, found, admitted⟩ := spelled.columns?
    refine decode?_eq_some_iff.mpr
      ⟨columns, found, admits_fieldsAt (fun _ _ invoked => ?_) admitted⟩
    refine optional?_of_optionally rfl ?_ ((invoked_iff ⟨place, p :: ps⟩ _).mp invoked)
    rintro _ inner ⟨rfl⟩ written
    exact ih p written

/-- Nothing else is read as a location, if each name is written once. -/
theorem spelledBy_of_decode? (once : d.NamesOnce) (read : decode? d = some s) : s.SpelledBy d := by
  obtain ⟨place, outer⟩ := s
  induction outer generalizing place d with
  | nil =>
    obtain ⟨columns, found, admitted⟩ := decode?_eq_some_iff.mp read
    refine spelled_of_columns? once found (admits_fieldsAt (fun _ _ invoked => ?_) admitted)
    exact (invoked_iff ⟨place, []⟩ _).mpr
      (optionally_of_optional? (fun _ _ missing => by cases missing) invoked)
  | cons p ps ih =>
    obtain ⟨columns, found, admitted⟩ := decode?_eq_some_iff.mp read
    refine spelled_of_columns? once found (admits_fieldsAt (fun _ member invoked => ?_) admitted)
    refine (invoked_iff ⟨place, p :: ps⟩ _).mpr (optionally_of_optional? ?_ invoked)
    rintro _ inner ⟨rfl⟩ rfl read
    exact ih (once.column found member) p read

/-- What is written for a place is a spelling of it, if what is written for its invocation is. -/
theorem spelled_encodePlace {p : Place} {invocation : Option Datum → Prop} {outer : Datum}
    (fits : p.Fits) (invoked : invocation (some outer)) :
    Spelled (fieldsAt p invocation) (encodePlace p outer) :=
  spelled_fields (by simp) (.cons ⟨rfl, _, rfl, rfl⟩ (.cons ⟨rfl, invoked⟩
    (.cons ⟨rfl, _, rfl, rfl, fits.startLine⟩ (.cons ⟨rfl, _, rfl, rfl, fits.startColumn⟩
      (.cons ⟨rfl, _, rfl, rfl, fits.endLine⟩ (.cons ⟨rfl, _, rfl, rfl, fits.endColumn⟩ .nil))))))

theorem invoked_encodeOuter {ps : List Place} (fits : ∀ p ∈ ps, p.Fits) :
    Invoked ps (some (encodeOuter ps)) := by
  induction ps with
  | nil => exact .inr rfl
  | cons p ps ih =>
    have outer := ih fun q member => fits q (by simp [member])
    exact ⟨_, rfl, spelled_encodePlace (fits p (by simp)) outer⟩

theorem spelledBy_encode (fits : s.Fits) : s.SpelledBy s.encode :=
  spelled_encodePlace (fits s.place (by simp))
    (invoked_encodeOuter fun p member => fits p (by simp [member]))

end Span

/-! ## Definitions, invocations and elements -/

namespace MacroDefinition

def fields (m : MacroDefinition) : List Field :=
  [.required "name" m.name.SpelledBy, .required "source" (· = .text m.source),
    .required "span" m.span.SpelledBy]

def SpelledBy (m : MacroDefinition) (d : Datum) : Prop :=
  Spelled m.fields d

def Fits (m : MacroDefinition) : Prop :=
  m.span.Fits

variable {m : MacroDefinition}

theorem spelledBy_encode (fits : m.Fits) : m.SpelledBy m.encode :=
  spelled_fields (by simp) (.cons ⟨rfl, _, rfl, rfl⟩ (.cons ⟨rfl, _, rfl, rfl⟩
    (.cons ⟨rfl, _, rfl, Span.spelledBy_encode fits⟩ .nil)))

theorem decode?_of_spelledBy (spelled : m.SpelledBy d) : decode? d = some m := by
  obtain ⟨columns, found, admitted⟩ := spelled.columns?
  rcases admitted with _ | ⟨⟨_, rfl, name⟩, _ | ⟨⟨_, rfl, source⟩, _ | ⟨⟨_, rfl, span⟩, _ | _⟩⟩⟩
  change d.columns? ["name", "source", "span"] = _ at found
  simp [decode?, found, Ident.decode?_eq_some_iff.mpr name, text?_eq_some_iff.mpr source,
    Span.decode?_of_spelledBy span]

theorem spelledBy_of_decode? (once : d.NamesOnce) (read : decode? d = some m) :
    m.SpelledBy d := by
  rw [decode?] at read
  split at read
  next found =>
    simp only [Option.bind_eq_bind, Option.bind_eq_some_iff, Option.pure_def,
      Ident.decode?_eq_some_iff, text?_eq_some_iff] at read
    obtain ⟨_, name, _, source, _, span, same⟩ := read
    cases same
    have written := Span.spelledBy_of_decode? (once.column found (by simp)) span
    exact spelled_of_columns? once found
      (.cons ⟨_, rfl, name⟩ (.cons ⟨_, rfl, source⟩ (.cons ⟨_, rfl, written⟩ .nil)))
  next => cases read

end MacroDefinition

namespace MacroInvocation

def fields (m : MacroInvocation) : List Field :=
  [.required "name" m.name.SpelledBy, .required "source" (· = .text m.source),
    .required "span" m.span.SpelledBy, .required "context" m.context.SpelledBy]

def SpelledBy (m : MacroInvocation) (d : Datum) : Prop :=
  Spelled m.fields d

def Fits (m : MacroInvocation) : Prop :=
  m.span.Fits ∧ m.context.Fits

variable {m : MacroInvocation}

theorem spelledBy_encode (fits : m.Fits) : m.SpelledBy m.encode :=
  spelled_fields (by simp) (.cons ⟨rfl, _, rfl, rfl⟩ (.cons ⟨rfl, _, rfl, rfl⟩
    (.cons ⟨rfl, _, rfl, Span.spelledBy_encode fits.1⟩
      (.cons ⟨rfl, _, rfl, InvocationContext.spelledBy_encode fits.2⟩ .nil))))

theorem decode?_of_spelledBy (spelled : m.SpelledBy d) : decode? d = some m := by
  obtain ⟨columns, found, admitted⟩ := spelled.columns?
  rcases admitted with _ | ⟨⟨_, rfl, name⟩, _ | ⟨⟨_, rfl, source⟩, _ | ⟨⟨_, rfl, span⟩,
    _ | ⟨⟨_, rfl, context⟩, _ | _⟩⟩⟩⟩
  change d.columns? ["name", "source", "span", "context"] = _ at found
  simp [decode?, found, Ident.decode?_eq_some_iff.mpr name, text?_eq_some_iff.mpr source,
    Span.decode?_of_spelledBy span, InvocationContext.decode?_eq_some_iff.mpr context]

theorem spelledBy_of_decode? (once : d.NamesOnce) (read : decode? d = some m) :
    m.SpelledBy d := by
  rw [decode?] at read
  split at read
  next found =>
    simp only [Option.bind_eq_bind, Option.bind_eq_some_iff, Option.pure_def,
      Ident.decode?_eq_some_iff, text?_eq_some_iff, InvocationContext.decode?_eq_some_iff] at read
    obtain ⟨_, name, _, source, _, span, _, context, same⟩ := read
    cases same
    have written := Span.spelledBy_of_decode? (once.column found (by simp)) span
    exact spelled_of_columns? once found (.cons ⟨_, rfl, name⟩ (.cons ⟨_, rfl, source⟩
      (.cons ⟨_, rfl, written⟩ (.cons ⟨_, rfl, context⟩ .nil))))
  next => cases read

end MacroInvocation

namespace BoundElement

def fields (e : BoundElement) : List Field :=
  [.required "kind" e.kind.SpelledBy, .optional "name" Ident.SpelledBy e.name,
    .required "attributes" (· = .list (e.attributes.map .text)),
    .required "text" (· = .text e.text), .required "span" e.span.SpelledBy,
    .required "context" e.context.SpelledBy]

def SpelledBy (e : BoundElement) (d : Datum) : Prop :=
  Spelled e.fields d

def Fits (e : BoundElement) : Prop :=
  e.span.Fits ∧ e.context.Fits

variable {e : BoundElement}

theorem spelledBy_encode (fits : e.Fits) : e.SpelledBy e.encode := by
  have name : Optionally Ident.SpelledBy e.name (some ((e.name.map Ident.encode).getD .null)) := by
    cases e.name with
    | none => exact .inr rfl
    | some name => exact ⟨_, rfl, rfl⟩
  exact spelled_fields (by simp [Element.encodeFields]) (.cons ⟨rfl, _, rfl, .inl rfl⟩
    (.cons ⟨rfl, name⟩ (.cons ⟨rfl, _, rfl, rfl⟩ (.cons ⟨rfl, _, rfl, rfl⟩
      (.cons ⟨rfl, _, rfl, Span.spelledBy_encode fits.1⟩
        (.cons ⟨rfl, _, rfl, rfl, fits.2⟩ .nil))))))

theorem decode?_of_spelledBy (spelled : e.SpelledBy d) : decode? d = some e := by
  obtain ⟨columns, found, admitted⟩ := spelled.columns?
  rcases admitted with _ | ⟨⟨_, rfl, kind⟩, _ | ⟨name, _ | ⟨⟨_, rfl, rfl⟩, _ | ⟨⟨_, rfl, text⟩,
    _ | ⟨⟨_, rfl, span⟩, _ | ⟨⟨_, rfl, context⟩, _ | _⟩⟩⟩⟩⟩⟩
  change d.columns? ["kind", "name", "attributes", "text", "span", "context"] = _ at found
  have named : optional? Ident.decode? _ = some e.name :=
    optional?_of_optionally rfl (fun _ _ _ => Ident.decode?_eq_some_iff.mpr) name
  have attributes : (e.attributes.map Datum.text).mapM text? = some e.attributes :=
    mapM_text?_eq_some_iff.mpr rfl
  simp [-List.mapM_map, decode?, found, ElementKind.decode?_eq_some_iff.mpr kind, named, list?,
    attributes, text?_eq_some_iff.mpr text, Span.decode?_of_spelledBy span,
    ScopeId.decode?_eq_some_iff.mpr context]

theorem spelledBy_of_decode? (once : d.NamesOnce) (read : decode? d = some e) :
    e.SpelledBy d := by
  rw [decode?] at read
  split at read
  next found =>
    simp only [Option.bind_eq_bind, Option.bind_eq_some_iff, Option.pure_def, list?_eq_some_iff,
      ElementKind.decode?_eq_some_iff, mapM_text?_eq_some_iff, text?_eq_some_iff,
      ScopeId.decode?_eq_some_iff] at read
    obtain ⟨_, kind, _, name, _, rfl, _, rfl, _, text, _, span, _, context, same⟩ := read
    cases same
    have written := Span.spelledBy_of_decode? (once.column found (by simp)) span
    have named := optionally_of_optional? (fun _ _ _ _ => Ident.decode?_eq_some_iff.mp) name
    exact spelled_of_columns? once found (.cons ⟨_, rfl, kind⟩ (.cons named (.cons ⟨_, rfl, rfl⟩
      (.cons ⟨_, rfl, text⟩ (.cons ⟨_, rfl, written⟩ (.cons ⟨_, rfl, context⟩ .nil))))))
  next => cases read

end BoundElement

/-! ## All types -/

/-- Values are written and read back by the spellings they have. -/
structure Record.ReadsBack (encode : α → Datum) (decode? : Datum → Option α) (Fits : α → Prop)
    (SpelledBy : α → Datum → Prop) : Prop where
  /-- What is written for a value is read as it. -/
  written : ∀ a, Fits a → decode? (encode a) = some a
  /-- What is written for a value is one of its spellings. -/
  spelled : ∀ a, Fits a → SpelledBy a (encode a)
  /-- Every spelling of a value is read as it. -/
  read : ∀ a d, SpelledBy a d → decode? d = some a
  /-- Nothing else is, if each name is written once. -/
  only : ∀ a d, d.NamesOnce → decode? d = some a → SpelledBy a d

theorem Record.ReadsBack.of_spelled {encode : α → Datum} {decode? : Datum → Option α}
    {Fits : α → Prop} {SpelledBy : α → Datum → Prop}
    (spelled : ∀ a, Fits a → SpelledBy a (encode a))
    (read : ∀ a d, SpelledBy a d → decode? d = some a)
    (only : ∀ a d, d.NamesOnce → decode? d = some a → SpelledBy a d) :
    ReadsBack encode decode? Fits SpelledBy :=
  ⟨fun a fits => read a _ (spelled a fits), spelled, read, only⟩

/-- Data of every type is read back from what is written for it, and from every other spelling: with
the fields of a record in any order, among unknown fields or as a list, and with an optional field
left out, on every level. -/
theorem records_read_back :
    ReadsBack Ident.encode Ident.decode? (fun _ => True) Ident.SpelledBy ∧
    ReadsBack ScopeId.encode ScopeId.decode? ScopeId.Fits ScopeId.SpelledBy ∧
    ReadsBack Namespace.encode Namespace.decode? (fun _ => True) Namespace.SpelledBy ∧
    ReadsBack InvocationContext.encode InvocationContext.decode? InvocationContext.Fits
      InvocationContext.SpelledBy ∧
    ReadsBack ElementKind.encode ElementKind.decode? (fun _ => True) ElementKind.SpelledBy ∧
    ReadsBack Span.encode Span.decode? Span.Fits Span.SpelledBy ∧
    ReadsBack MacroDefinition.encode MacroDefinition.decode? MacroDefinition.Fits
      MacroDefinition.SpelledBy ∧
    ReadsBack MacroInvocation.encode MacroInvocation.decode? MacroInvocation.Fits
      MacroInvocation.SpelledBy ∧
    ReadsBack BoundElement.encode BoundElement.decode? BoundElement.Fits BoundElement.SpelledBy :=
  ⟨.of_spelled (fun _ _ => rfl) (fun _ _ => Ident.decode?_eq_some_iff.mpr)
      (fun _ _ _ => Ident.decode?_eq_some_iff.mp),
    .of_spelled (fun _ fits => ⟨rfl, fits⟩) (fun _ _ => ScopeId.decode?_eq_some_iff.mpr)
      (fun _ _ _ => ScopeId.decode?_eq_some_iff.mp),
    .of_spelled (fun _ _ => .inl rfl) (fun _ _ => Namespace.decode?_eq_some_iff.mpr)
      (fun _ _ _ => Namespace.decode?_eq_some_iff.mp),
    .of_spelled (fun _ => InvocationContext.spelledBy_encode)
      (fun _ _ => InvocationContext.decode?_eq_some_iff.mpr)
      (fun _ _ _ => InvocationContext.decode?_eq_some_iff.mp),
    .of_spelled (fun _ _ => .inl rfl) (fun _ _ => ElementKind.decode?_eq_some_iff.mpr)
      (fun _ _ _ => ElementKind.decode?_eq_some_iff.mp),
    .of_spelled (fun _ => Span.spelledBy_encode) (fun _ _ => Span.decode?_of_spelledBy)
      (fun _ _ => Span.spelledBy_of_decode?),
    .of_spelled (fun _ => MacroDefinition.spelledBy_encode)
      (fun _ _ => MacroDefinition.decode?_of_spelledBy)
      (fun _ _ => MacroDefinition.spelledBy_of_decode?),
    .of_spelled (fun _ => MacroInvocation.spelledBy_encode)
      (fun _ _ => MacroInvocation.decode?_of_spelledBy)
      (fun _ _ => MacroInvocation.spelledBy_of_decode?),
    .of_spelled (fun _ => BoundElement.spelledBy_encode)
      (fun _ _ => BoundElement.decode?_of_spelledBy)
      (fun _ _ => BoundElement.spelledBy_of_decode?)⟩

/-- An invocation as a list, whose location has its fields in another order and one more, and is
expanded from a location that is a list. -/
theorem records_read_back_mixed :
    let place : Place := ⟨"a.rs", 1, 0, 1, 4⟩
    let outer : Datum :=
      .list [.text "b.rs", .null, .natural 2, .natural 0, .natural 3, .natural 1]
    let span : Datum := .fields [("end_line", .natural 1), ("note", .otherNumber),
      ("macro_invocation", outer), ("end_column", .natural 4), ("start_line", .natural 1),
      ("source_file", .text "a.rs"), ("start_column", .natural 0)]
    MacroInvocation.decode? (.list [.text "m", .text "m!()", span,
        .fields [("Block", .natural 3)]]) =
      some ⟨⟨"m"⟩, "m!()", ⟨place, [⟨"b.rs", 2, 0, 3, 1⟩]⟩, .block ⟨3⟩⟩ := by
  intro place outer span
  have bound {n : Nat} (small : n < 5) : Numeral n (.natural n) :=
    ⟨rfl, Nat.lt_trans small (by decide)⟩
  have around : Spelled (Span.fieldsAt ⟨"b.rs", 2, 0, 3, 1⟩ (Span.Invoked [])) outer :=
    .inOrder (.cons ⟨_, rfl, rfl⟩ (.cons (.inr rfl) (.cons ⟨_, rfl, bound (by decide)⟩
      (.cons ⟨_, rfl, bound (by decide)⟩ (.cons ⟨_, rfl, bound (by decide)⟩
        (.cons ⟨_, rfl, bound (by decide)⟩ .nil))))))
  have here : Span.SpelledBy ⟨place, [⟨"b.rs", 2, 0, 3, 1⟩]⟩ span := by
    refine .byName (by decide) fun f member => ?_
    simp only [Span.fieldsAt, List.mem_cons, List.not_mem_nil, or_false] at member
    rcases member with rfl | rfl | rfl | rfl | rfl | rfl
    · exact ⟨_, .entry (d := .text "a.rs") (by simp [Field.required]), _, rfl, rfl⟩
    · exact ⟨_, .entry (d := outer) (by simp), _, rfl, around⟩
    · exact ⟨_, .entry (d := .natural 1) (by simp [Field.required]), _, rfl, bound (by decide)⟩
    · exact ⟨_, .entry (d := .natural 0) (by simp [Field.required]), _, rfl, bound (by decide)⟩
    · exact ⟨_, .entry (d := .natural 1) (by simp [Field.required]), _, rfl, bound (by decide)⟩
    · exact ⟨_, .entry (d := .natural 4) (by simp [Field.required]), _, rfl, bound (by decide)⟩
  have read := records_read_back.2.2.2.2.2.2.2.1.read
    ⟨⟨"m"⟩, "m!()", ⟨place, [⟨"b.rs", 2, 0, 3, 1⟩]⟩, .block ⟨3⟩⟩
  exact read _ (.inOrder (.cons ⟨_, rfl, rfl⟩ (.cons ⟨_, rfl, rfl⟩ (.cons ⟨_, rfl, here⟩
    (.cons ⟨_, rfl, _, rfl, bound (by decide)⟩ .nil)))))

end MacroExpansion
