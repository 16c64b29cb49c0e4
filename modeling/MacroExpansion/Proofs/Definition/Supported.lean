import MacroExpansion.Proofs.Definition.Address

/-!
# Which definitions are supported

The supported form of a definition is told by what stands where in its pattern and its template,
and so are the objections to it, in their order. Main statement: the shape of a definition is the
one of its supported form, and otherwise the reason against it is that of the first objection that
applies.
-/
namespace MacroExpansion

open Piece

/-- The first of some objections that applies gives this reason. -/
inductive FirstObjection (reason : Unsupported) : List (Unsupported → Prop) → Prop where
  | here {o : Unsupported → Prop} {os : List (Unsupported → Prop)} (applies : o reason) :
      FirstObjection reason (o :: os)
  | later {o : Unsupported → Prop} {os : List (Unsupported → Prop)} (fails : ∀ r, ¬ o r)
      (first : FirstObjection reason os) : FirstObjection reason (o :: os)

namespace FirstObjection

variable {reason given : Unsupported} {o : Unsupported → Prop}
  {os later : List (Unsupported → Prop)}

theorem not_nil : ¬ FirstObjection reason [] :=
  nofun

/-- An objection that applies settles the reason. -/
theorem cons_iff_of_applies (applies : ∀ r, o r ↔ r = given) :
    FirstObjection reason (o :: os) ↔ reason = given := by
  constructor
  · rintro (here | ⟨fails, _⟩)
    · exact (applies reason).mp here
    · exact absurd ((applies given).mpr rfl) (fails given)
  · exact fun same => .here ((applies reason).mpr same)

theorem cons_iff_of_fails (fails : ∀ r, ¬ o r) :
    FirstObjection reason (o :: os) ↔ FirstObjection reason os := by
  constructor
  · rintro (here | ⟨_, first⟩)
    · exact absurd here (fails reason)
    · exact first
  · exact .later fails

/-- Later objections count if none of the earlier ones applies. -/
theorem append_iff : FirstObjection reason (os ++ later) ↔
    FirstObjection reason os ∨ (∀ r, ¬ FirstObjection r os) ∧ FirstObjection reason later := by
  induction os with
  | nil => simp [not_nil]
  | cons o os ih =>
    by_cases fails : ∀ r, ¬ o r
    · simp only [List.cons_append, cons_iff_of_fails fails, ih]
    · obtain ⟨r, applies⟩ := not_forall_not.mp fails
      constructor
      · rintro (here | ⟨unopposed, _⟩)
        · exact .inl (.here here)
        · exact absurd applies (unopposed r)
      · rintro ((here | ⟨unopposed, _⟩) | ⟨unopposed, _⟩)
        · exact .here here
        · exact absurd applies (unopposed r)
        · exact absurd (.here applies) (unopposed r)

end FirstObjection

/-- A check gives what is supported, or the reason of the first objection. -/
structure Decides (result : Except Unsupported α) (Supported : α → Prop)
    (objections : List (Unsupported → Prop)) : Prop where
  ok_iff : ∀ a, result = .ok a ↔ Supported a
  error_iff : ∀ reason, result = .error reason ↔ FirstObjection reason objections

namespace Decides

variable {result : Except Unsupported α} {Supported : α → Prop} {given : Unsupported} {found : α}
  {o : Unsupported → Prop} {os : List (Unsupported → Prop)}

/-- A check that fails where an objection applies. -/
theorem refused (failed : result = .error given) (applies : ∀ r, o r ↔ r = given)
    (unsupported : ∀ a, ¬ Supported a) : Decides result Supported (o :: os) := by
  subst failed
  refine ⟨fun a => ⟨nofun, fun supported => absurd supported (unsupported a)⟩, fun reason => ?_⟩
  rw [FirstObjection.cons_iff_of_applies applies, Except.error.injEq, eq_comm]

/-- A check that passes where an objection does not apply. -/
theorem passed (fails : ∀ r, ¬ o r) (decides : Decides result Supported os) :
    Decides result Supported (o :: os) :=
  ⟨decides.ok_iff, fun reason =>
    (decides.error_iff reason).trans (FirstObjection.cons_iff_of_fails fails).symm⟩

theorem accepted (succeeded : result = .ok found) (supported : ∀ a, Supported a ↔ a = found) :
    Decides result Supported [] := by
  subst succeeded
  exact ⟨fun a => by rw [supported, Except.ok.injEq, eq_comm], fun reason => ⟨nofun, nofun⟩⟩

theorem congr {Supported' : α → Prop} (decides : Decides result Supported os)
    (same : ∀ a, Supported' a ↔ Supported a) : Decides result Supported' os :=
  ⟨fun a => (decides.ok_iff a).trans (same a).symm, decides.error_iff⟩

/-- A check that is made if another one passes. -/
theorem bind {next : α → Except Unsupported β} {S : α → β → Prop}
    {later : List (Unsupported → Prop)} (decides : Decides result Supported os)
    (each : ∀ a, Supported a → Decides (next a) (S a) later) :
    Decides (result >>= next) (fun b => ∃ a, Supported a ∧ S a b) (os ++ later) := by
  cases result with
  | error given =>
    have first := (decides.error_iff given).mp rfl
    have unsupported (a : α) : ¬ Supported a := fun supported => by
      cases (decides.ok_iff a).mpr supported
    refine ⟨fun b => ⟨nofun, fun ⟨a, supported, _⟩ => absurd supported (unsupported a)⟩,
      fun reason => ?_⟩
    rw [FirstObjection.append_iff]
    constructor
    · rintro ⟨⟩
      exact .inl first
    · rintro (first' | ⟨unopposed, _⟩)
      · exact (decides.error_iff reason).mpr first' ▸ rfl
      · exact absurd first (unopposed given)
  | ok a =>
    have decides' := each a ((decides.ok_iff a).mp rfl)
    have unopposed (r : Unsupported) : ¬ FirstObjection r os := fun first => by
      cases (decides.error_iff r).mpr first
    refine ⟨fun b => (decides'.ok_iff b).trans ⟨fun supported => ⟨a, (decides.ok_iff a).mp rfl,
      supported⟩, ?_⟩, fun reason => (decides'.error_iff reason).trans ?_⟩
    · rintro ⟨a', supported, supported'⟩
      cases (decides.ok_iff a').mpr supported
      exact supported'
    · rw [FirstObjection.append_iff]
      exact ⟨fun first => .inr ⟨unopposed, first⟩,
        fun first => (first.resolve_left (unopposed reason)).2⟩

end Decides

/-! ## The repetition of a sequence -/

section Single

variable {μ α : Type} {ps : List (Piece μ)} {r : Repetition μ}

/-- A sequence has one repetition, and none of its groups has one. -/
structure HasRepetition (ps : List (Piece μ)) (r : Repetition μ) : Prop where
  flat : ¬ RepeatsInGroup ps
  single : ownRepetitions ps = [r]

/-- The objections to the repetitions of a sequence, in order. -/
def repetitionObjections (wrong : Nat → Unsupported) (ps : List (Piece μ)) :
    List (Unsupported → Prop) :=
  [fun reason => RepeatsInGroup ps ∧ reason = .groupedRepetition,
    fun reason => (ownRepetitions ps).length ≠ 1 ∧ reason = wrong (ownRepetitions ps).length]

/-- The repetition of a sequence that has one. -/
def theRepetition (wrong : Nat → Unsupported) (ps : List (Piece μ)) :
    Except Unsupported (Repetition μ) :=
  match repetitions ps with
  | .ok [r] => .ok r
  | .ok found => .error (wrong found.length)
  | .error reason => .error reason

theorem theRepetition_decides (wrong : Nat → Unsupported) (ps : List (Piece μ)) :
    Decides (theRepetition wrong ps) (HasRepetition ps) (repetitionObjections wrong ps) := by
  by_cases grouped : RepeatsInGroup ps
  · refine .refused ?_ (fun _ => and_iff_right grouped) (fun _ has => has.flat grouped)
    rw [theRepetition, repetitions_eq_error grouped]
  refine .passed (fun _ ⟨here, _⟩ => grouped here) ?_
  rw [theRepetition, repetitions_eq_ok grouped]
  match single : ownRepetitions ps with
  | [r] =>
    refine .passed (fun _ ⟨several, _⟩ => several rfl) (.accepted rfl fun r' => ⟨fun has => ?_, ?_⟩)
    · exact (List.singleton_inj.mp (single.symm.trans has.single)).symm
    · rintro rfl
      exact ⟨grouped, single⟩
  | [] =>
    refine .refused rfl (fun _ => and_iff_right (by simp)) fun r has => ?_
    cases single.symm.trans has.single
  | _ :: _ :: _ =>
    refine .refused rfl (fun _ => and_iff_right (by simp)) fun r has => ?_
    cases single.symm.trans has.single

end Single

/-! ## Patterns -/

/-- What is in the repetition of a supported pattern: no repetition, and one metavariable, which
stands for items. -/
structure SupportedContent (content : Pattern) (fragment : Fragment) : Prop where
  simple : ¬ Repeats content
  one : HasMetavariables content 1
  binds : ∃ address, StandsAt content address (.metavariable fragment)
  kind : fragment.kind = .item

/-- A supported pattern has one repetition, in no group, and no metavariable around it. -/
structure SupportedPattern (pattern : Pattern) (r : Repetition Fragment) (fragment : Fragment) :
    Prop where
  has : HasRepetition pattern r
  tight : ∀ address m, ¬ StandsAt pattern address (.metavariable m)
  content : SupportedContent r.content fragment

/-- The objections to what is in the repetition of a pattern, in order. -/
def contentObjections (content : Pattern) : List (Unsupported → Prop) :=
  [fun reason => Repeats content ∧ reason = .nestedGroup,
    fun reason => ∃ n, HasMetavariables content n ∧ n ≠ 1 ∧ reason = .bindingCount n,
    fun reason => ∃ m address, StandsAt content address (.metavariable m) ∧ m.kind ≠ .item ∧
      reason = .fragmentKind m.kind]

/-- The objections to a pattern, in order. -/
def patternObjections (pattern : Pattern) : List (Unsupported → Prop) :=
  repetitionObjections .patternGroupCount pattern ++
    (fun reason => ∃ m address, FirstMetavariable pattern m address ∧
      reason = .looseFragment m.name) ::
    (ownRepetitions pattern).flatMap fun r => contentObjections r.content

namespace SupportedShape

/-- The metavariable in a repetition, if it is the only one. -/
def bindingWithin (content : Pattern) : Except Unsupported Ident :=
  if Piece.anyRepetition content then .error .nestedGroup
  else
    match Piece.metavariables content with
    | [fragment] =>
      if fragment.kind = .item then .ok fragment.name else .error (.fragmentKind fragment.kind)
    | fragments => .error (.bindingCount fragments.length)

/-- A pattern is checked around its repetition, and then in there. -/
theorem bindingOf_eq (pattern : Pattern) : bindingOf pattern = (do
    let r ← theRepetition .patternGroupCount pattern
    match Piece.metavariables pattern with
    | loose :: _ => .error (.looseFragment loose.name)
    | [] => bindingWithin r.content) := by
  simp only [bindingOf, theRepetition, bind, Except.bind]
  rcases Piece.repetitions pattern with _ | _ | ⟨r, _ | _⟩
  · rfl
  · rfl
  · cases Piece.metavariables pattern with
    | cons => rfl
    | nil =>
      simp only [bindingWithin]
      cases Piece.anyRepetition r.content with
      | true => rfl
      | false => rcases Piece.metavariables r.content with _ | ⟨_, _ | _⟩ <;> rfl
  · rfl

theorem bindingWithin_decides (content : Pattern) :
    Decides (bindingWithin content)
      (fun name => ∃ fragment, SupportedContent content fragment ∧ name = fragment.name)
      (contentObjections content) := by
  by_cases nested : Repeats content
  · exact .refused (if_pos ((anyRepetition_iff _).mpr nested)) (fun _ => and_iff_right nested)
      (fun _ ⟨_, supported, _⟩ => supported.simple nested)
  refine .passed (fun _ ⟨here, _⟩ => nested here) ?_
  rw [bindingWithin, if_neg (fun any => nested ((anyRepetition_iff _).mp any))]
  have counted := hasMetavariables_length content
  match inside : Piece.metavariables content, counted with
  | [], counted | _ :: _ :: _, counted =>
    refine .refused rfl (fun reason => ⟨?_, ?_⟩) (fun _ ⟨_, supported, _⟩ => ?_)
    · rintro ⟨n, counted', _, rfl⟩
      rw [counted'.unique counted]
    · rintro rfl
      exact ⟨_, counted, by simp, rfl⟩
    · exact absurd (supported.one.unique counted) (by simp)
  | [fragment], counted =>
    have sole {m : Fragment} {address : List Nat}
        (stands : StandsAt content address (.metavariable m)) : m = fragment :=
      List.mem_singleton.mp (inside ▸ mem_metavariables stands)
    obtain ⟨address, first⟩ := firstMetavariable_of_cons inside
    refine .passed (fun _ ⟨n, counted', several, _⟩ => several (counted'.unique counted)) ?_
    by_cases kind : fragment.kind = .item
    · refine .passed ?_ (.accepted (if_pos kind) fun name => ⟨?_, ?_⟩)
      · rintro _ ⟨m, _, stands, other, _⟩
        exact other (sole stands ▸ kind)
      · rintro ⟨m, supported, rfl⟩
        obtain ⟨_, stands⟩ := supported.binds
        rw [sole stands]
      · rintro rfl
        exact ⟨fragment, ⟨nested, counted, ⟨address, first.stands⟩, kind⟩, rfl⟩
    · refine .refused (if_neg kind) (fun reason => ⟨?_, ?_⟩) ?_
      · rintro ⟨m, _, stands, _, rfl⟩
        rw [sole stands]
      · rintro rfl
        exact ⟨fragment, address, first.stands, kind, rfl⟩
      · rintro _ ⟨m, supported, _⟩
        obtain ⟨_, stands⟩ := supported.binds
        exact kind (sole stands ▸ supported.kind)

theorem bindingOf_decides (pattern : Pattern) :
    Decides (bindingOf pattern)
      (fun name => ∃ r fragment, SupportedPattern pattern r fragment ∧ name = fragment.name)
      (patternObjections pattern) := by
  rw [bindingOf_eq]
  refine .congr (.bind (theRepetition_decides _ pattern)
    (S := fun r name => (∀ address m, ¬ StandsAt pattern address (.metavariable m)) ∧
      ∃ fragment, SupportedContent r.content fragment ∧ name = fragment.name) fun r has => ?_) ?_
  · rw [has.single, List.flatMap_singleton]
    cases loose : Piece.metavariables pattern with
    | cons m ms =>
      obtain ⟨address, first⟩ := firstMetavariable_of_cons loose
      refine .refused rfl (fun reason => ⟨?_, ?_⟩) (fun _ ⟨tight, _⟩ => tight _ _ first.stands)
      · rintro ⟨m', address', first', rfl⟩
        rw [first'.unique first]
      · rintro rfl
        exact ⟨m, address, first, rfl⟩
    | nil =>
      have tight := metavariables_eq_nil_iff.mp loose
      exact .passed (fun _ ⟨m, address, first, _⟩ => tight address m first.stands)
        ((bindingWithin_decides r.content).congr fun _ => and_iff_right tight)
  · intro name
    constructor
    · rintro ⟨r, fragment, ⟨has, tight, content⟩, same⟩
      exact ⟨r, has, tight, fragment, content, same⟩
    · rintro ⟨r, has, tight, fragment, content, same⟩
      exact ⟨r, fragment, ⟨has, tight, content⟩, same⟩

end SupportedShape

/-! ## Templates -/

/-- A supported template has one repetition, in no group. It is not empty, and there is no
repetition in it. -/
structure SupportedTemplate (template : Template) (r : Repetition Ident) : Prop where
  has : HasRepetition template r
  filled : r.content ≠ []
  simple : ¬ Repeats r.content

/-- The objections to a template, in order. -/
def templateObjections (template : Template) : List (Unsupported → Prop) :=
  repetitionObjections .templateGroupCount template ++ (ownRepetitions template).flatMap fun r =>
    [fun reason => r.content = [] ∧ reason = .emptyTemplate,
      fun reason => Repeats r.content ∧ reason = .nestedGroup]

namespace SupportedShape

/-- A template is checked around its repetition, and then in there. -/
theorem parenthesesOf_eq (template : Template) : parenthesesOf template = (do
    let r ← theRepetition .templateGroupCount template
    if r.content.isEmpty then .error .emptyTemplate
    else if Piece.anyRepetition r.content then .error .nestedGroup
    else .ok r.parentheses) := by
  simp only [parenthesesOf, theRepetition, bind, Except.bind]
  rcases Piece.repetitions template with _ | _ | ⟨r, _ | _⟩
  · rfl
  · rfl
  · cases List.isEmpty r.content <;> cases Piece.anyRepetition r.content <;> rfl
  · rfl

theorem parenthesesOf_decides (template : Template) :
    Decides (parenthesesOf template)
      (fun extent => ∃ r, SupportedTemplate template r ∧ extent = r.parentheses)
      (templateObjections template) := by
  rw [parenthesesOf_eq]
  refine .congr (.bind (theRepetition_decides _ template)
    (S := fun r extent => r.content ≠ [] ∧ ¬ Repeats r.content ∧ extent = r.parentheses)
    fun r has => ?_) ?_
  · rw [has.single, List.flatMap_singleton]
    by_cases empty : r.content = []
    · exact .refused (if_pos (List.isEmpty_iff.mpr empty)) (fun _ => and_iff_right empty)
        (fun _ ⟨filled, _⟩ => filled empty)
    rw [if_neg (fun nothing => empty (List.isEmpty_iff.mp nothing))]
    refine .passed (fun _ ⟨here, _⟩ => empty here) ?_
    by_cases nested : Repeats r.content
    · exact .refused (if_pos ((anyRepetition_iff _).mpr nested)) (fun _ => and_iff_right nested)
        (fun _ ⟨_, simple, _⟩ => simple nested)
    refine .passed (fun _ ⟨here, _⟩ => nested here) (.accepted
      (if_neg (fun any => nested ((anyRepetition_iff _).mp any))) fun extent => ?_)
    rw [and_iff_right empty, and_iff_right nested]
  · intro extent
    constructor
    · rintro ⟨r, ⟨has, filled, simple⟩, same⟩
      exact ⟨r, has, filled, simple, same⟩
    · rintro ⟨r, has, filled, simple, same⟩
      exact ⟨r, ⟨has, filled, simple⟩, same⟩

end SupportedShape

/-! ## Definitions -/

namespace RuleSet

/-- A supported definition has one case. The shape has the name of the metavariable of its pattern
and the parentheses of the repetition of its template. -/
def Supports (rules : RuleSet) (shape : SupportedShape) : Prop :=
  ∃ only, rules.cases = [only] ∧
    (∃ r fragment, SupportedPattern only.pattern r fragment ∧ shape.binding = fragment.name) ∧
    ∃ r, SupportedTemplate only.template r ∧ shape.template = r.parentheses

/-- The objections to a definition, in order. -/
def objections (rules : RuleSet) : List (Unsupported → Prop) :=
  (fun reason => rules.cases.length ≠ 1 ∧ reason = .caseCount rules.cases.length) ::
    rules.cases.flatMap fun only =>
      patternObjections only.pattern ++ templateObjections only.template

end RuleSet

/-- A definition has the shape of its supported form, or the first objection is the reason against
it. -/
theorem shape_decided (rules : RuleSet) :
    Decides (SupportedShape.ofRules rules) rules.Supports rules.objections := by
  obtain ⟨_, cases⟩ := rules
  match cases with
  | [only] =>
    refine .passed (fun _ ⟨several, _⟩ => several rfl) ?_
    rw [SupportedShape.ofRules, List.flatMap_singleton]
    refine .congr (.bind (SupportedShape.bindingOf_decides only.pattern)
      (S := fun name shape => (∃ r, SupportedTemplate only.template r ∧
        shape.template = r.parentheses) ∧ shape.binding = name) fun name _ => ?_) fun shape => ?_
    · rw [← List.append_nil (templateObjections only.template)]
      refine .congr (.bind (SupportedShape.parenthesesOf_decides only.template)
        (S := fun extent shape => shape = ⟨name, extent⟩) fun extent _ =>
          .accepted rfl fun _ => .rfl) fun shape => ?_
      constructor
      · rintro ⟨template, rfl⟩
        exact ⟨_, template, rfl⟩
      · rintro ⟨_, template, rfl⟩
        exact ⟨template, rfl⟩
    · constructor
      · rintro ⟨_, ⟨⟩, ⟨r, fragment, pattern, same⟩, template⟩
        exact ⟨_, ⟨r, fragment, pattern, same⟩, template, rfl⟩
      · rintro ⟨_, ⟨r, fragment, pattern, same⟩, template, rfl⟩
        exact ⟨only, rfl, ⟨r, fragment, pattern, same⟩, template⟩
  | [] | _ :: _ :: _ =>
    refine .refused rfl (fun _ => and_iff_right (by simp)) ?_
    rintro _ ⟨_, single, _⟩
    cases single

end MacroExpansion
