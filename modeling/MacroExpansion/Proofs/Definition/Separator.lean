import MacroExpansion.Proofs.Definition.Derivation
import MacroExpansion.Proofs.Definition.Shape
import MacroExpansion.Proofs.Definition.Supported

/-!
# Metavariables in separators

The tokens between a repetition and its operator are passed over, however many they are and
whatever they spell. So the metavariables that the tokens of a supported pattern spell are one more
than those that its separator spells, and a definition with several of them may be supported.
-/
namespace MacroExpansion

namespace TokenTree

def isSigil : TokenTree → Bool
  | .punct c _ _ => c == '$'
  | _ => false

mutual

/-- How often a `$` and a name stand in a token. -/
def mentions : TokenTree → Nat
  | .group _ content _ => mentionsOfAll content
  | _ => 0

/-- How often a `$` and a name stand among some tokens, in groups of any depth. -/
def mentionsOfAll : List TokenTree → Nat
  | [] => 0
  | t :: ts => t.mentions + (if t.isSigil && Grammar.Look.word ts then 1 else 0) + mentionsOfAll ts

end

theorem mentionsOfAll_cons_of_plain {t : TokenTree} (plain : t.Plain) (ts : List TokenTree) :
    mentionsOfAll (t :: ts) = mentionsOfAll ts := by
  cases t with
  | punct c joint place =>
    have other : c ≠ '$' := plain
    simp [mentionsOfAll, mentions, isSigil, other]
  | group _ _ _ => cases plain
  | _ => simp [mentionsOfAll, mentions, isSigil]

theorem mentionsOfAll_cons_group (d : Delimiter) (content : List TokenTree) (extent : Extent)
    (ts : List TokenTree) :
    mentionsOfAll (.group d content extent :: ts) = mentionsOfAll content + mentionsOfAll ts := by
  simp [mentionsOfAll, mentions, isSigil]

/-- No mention reaches over punctuation. -/
theorem mentionsOfAll_append_punct (ts us : List TokenTree) (c : Char) (joint : Bool)
    (place : Extent) : mentionsOfAll (ts ++ .punct c joint place :: us) =
      mentionsOfAll ts + mentionsOfAll (.punct c joint place :: us) := by
  induction ts with
  | nil => simp [mentionsOfAll]
  | cons t ts ih =>
    have same : Grammar.Look.word (ts ++ .punct c joint place :: us) = Grammar.Look.word ts := by
      cases ts with
      | nil => rfl
      | cons u _ => cases u <;> rfl
    rw [List.cons_append, mentionsOfAll, mentionsOfAll, ih, same]
    omega

end TokenTree

namespace Spelling

variable {μ : Type} {spelling : Spelling μ}

/-- A `$` and the tokens that spell a metavariable are one mention. -/
theorem Spells.mentions {words : List TokenTree} {m : μ} (spells : spelling.Spells words m)
    (joint : Bool) (sigil : Extent) (ts : List TokenTree) :
    TokenTree.mentionsOfAll (.punct '$' joint sigil :: (words ++ ts)) =
      TokenTree.mentionsOfAll ts + 1 := by
  cases spells <;>
    simp [TokenTree.mentionsOfAll, TokenTree.mentions, TokenTree.isSigil, Grammar.Look.word] <;>
    omega

end Spelling

namespace Piece

variable {μ : Type} {spelling : Spelling μ} {ts : List TokenTree} {ps qs : List (Piece μ)}

open TokenTree

/-- Where there is no repetition, each mention is that of a metavariable. -/
theorem Derives.mentions (derives : Derives spelling ts ps) (simple : ¬ Repeats ps)
    (us : List TokenTree) :
    mentionsOfAll (ts ++ us) = (metavariables ps).length + mentionsOfAll us := by
  induction derives generalizing us with
  | nil => simp [metavariables]
  | token plain _ ih =>
    have later := fun repeats => simple (repeats_cons_iff.mpr (.inr (.inr repeats)))
    rw [List.cons_append, mentionsOfAll_cons_of_plain plain, ih later]
    simp [metavariables, ownMetavariables]
  | @group _ inside _ _ content _ _ _ within ih =>
    have later := fun repeats => simple (repeats_cons_iff.mpr (.inr (.inr repeats)))
    have own := within
      (fun repeats => simple (repeats_cons_iff.mpr (.inr (.inl ⟨content, rfl, repeats⟩)))) []
    rw [List.append_nil] at own
    rw [List.cons_append, mentionsOfAll_cons_group, own, ih later]
    simp [metavariables, ownMetavariables, mentionsOfAll, Nat.add_assoc]
  | metavariable spells _ ih =>
    have later := fun repeats => simple (repeats_cons_iff.mpr (.inr (.inr repeats)))
    rw [List.cons_append, List.append_assoc, spells.mentions, ih later]
    simp [metavariables, ownMetavariables]
    omega
  | @repetition _ _ _ parentheses _ _ _ _ _ content =>
    exact absurd (repeats_cons_iff.mpr (.inl ⟨content, parentheses, rfl⟩)) simple

/-- The tokens of a row of pieces are those of its parts. -/
theorem Derives.split (derives : Derives spelling ts (ps ++ qs)) :
    ∃ before after, ts = before ++ after ∧ Derives spelling before ps ∧
      Derives spelling after qs := by
  induction ps generalizing ts with
  | nil => exact ⟨[], ts, rfl, .nil, derives⟩
  | cons p ps ih =>
    cases derives with
    | token plain later =>
      obtain ⟨before, after, rfl, first, last⟩ := ih later
      exact ⟨_, after, rfl, .token plain first, last⟩
    | group within later =>
      obtain ⟨before, after, rfl, first, last⟩ := ih later
      exact ⟨_, after, rfl, .group within first, last⟩
    | @metavariable joint sigil words _ _ _ spells later =>
      obtain ⟨before, after, rfl, first, last⟩ := ih later
      exact ⟨.punct '$' joint sigil :: (words ++ before), after, by simp,
        .metavariable spells first, last⟩
    | @repetition joint joint' sigil parentheses place inside separator _ c _ _ within separates
        operator later =>
      obtain ⟨before, after, rfl, first, last⟩ := ih later
      exact ⟨.punct '$' joint sigil :: .group .paren inside parentheses ::
        (separator ++ .punct c joint' place :: before), after, by simp,
        .repetition within separates operator first, last⟩

/-- These tokens have a repetition, with this separator before its operator. -/
inductive Separated (separator : List TokenTree) : List TokenTree → Prop where
  | mk {before inside after : List TokenTree} {joint joint' : Bool}
      {sigil parentheses place : Extent} {c : Char} (separates : ∀ t ∈ separator, t.Separates)
      (operator : c ∈ repetitionOperators) :
      Separated separator (before ++ .punct '$' joint sigil :: .group .paren inside parentheses ::
        (separator ++ .punct c joint' place :: after))

theorem metavariables_append (ps qs : List (Piece μ)) :
    metavariables (ps ++ qs) = metavariables ps ++ metavariables qs := by
  induction ps with
  | nil => rfl
  | cons p ps ih => simp [metavariables, ih]

end Piece

open Piece TokenTree

/-- The only repetition of a sequence divides it. -/
theorem HasRepetition.split {μ : Type} {ps : List (Piece μ)} {r : Repetition μ}
    (has : HasRepetition ps r) :
    ∃ before after, ps = before ++ .repetition r.content r.parentheses :: after ∧
      ¬ Repeats before ∧ ¬ Repeats after := by
  obtain ⟨before, p, after, rfl, early, here, late⟩ := List.filterMap_eq_cons_iff.mp has.single
  have apart {qs : List (Piece μ)} (part : ∀ q ∈ qs, q ∈ before ++ p :: after)
      (empty : ownRepetitions qs = []) : ¬ Repeats qs := fun repeats =>
    (own_or_grouped_of_repeats repeats).elim (· empty) fun ⟨content, member, repeats⟩ =>
      has.flat ⟨content, part _ member, repeats⟩
  refine ⟨before, after, ?_, apart (fun q member => ?_) (List.filterMap_eq_nil_iff.mpr early),
    apart (fun q member => ?_) late⟩
  · cases p with
    | repetition content parentheses =>
      cases here
      rfl
    | _ => cases here
  · exact List.mem_append_left _ member
  · exact List.mem_append_right _ (List.mem_cons_of_mem _ member)

/-- The metavariables that the tokens of a supported pattern spell are one more than those that its
separator spells. -/
theorem SupportedPattern.mentions {ts : List TokenTree} {pattern : Pattern}
    {r : Repetition Fragment} {fragment : Fragment}
    (supported : SupportedPattern pattern r fragment) (derives : Derives .pattern ts pattern) :
    ∃ separator, Separated separator ts ∧ mentionsOfAll ts = mentionsOfAll separator + 1 := by
  obtain ⟨before, after, rfl, simpleBefore, simpleAfter⟩ := supported.has.split
  have loose := metavariables_eq_nil_iff.mpr supported.tight
  rw [metavariables_append, List.append_eq_nil_iff] at loose
  obtain ⟨noneBefore, noneAfter⟩ := loose
  have noneAfter : metavariables after = [] := noneAfter
  have one := (hasMetavariables_length r.content).unique supported.content.one
  obtain ⟨early, rest, rfl, derivesEarly, derivesRest⟩ := derives.split
  cases derivesRest with
  | @repetition joint joint' sigil _ place inside separator late c _ _ within separates operator
      derivesLate =>
    refine ⟨separator, .mk separates operator, ?_⟩
    have plain : (TokenTree.punct c joint' place).Plain := by
      rintro rfl
      revert operator
      decide
    have inner := within.mentions supported.content.simple []
    have outer := derivesLate.mentions simpleAfter []
    rw [List.append_nil, one] at inner
    rw [List.append_nil, noneAfter] at outer
    have sigilAlone (us : List TokenTree) :
        mentionsOfAll (.punct '$' joint sigil :: .group .paren inside r.parentheses :: us) =
          mentionsOfAll (.group .paren inside r.parentheses :: us) := by
      simp [mentionsOfAll, TokenTree.mentions, Grammar.Look.word]
    rw [derivesEarly.mentions simpleBefore, noneBefore, sigilAlone, mentionsOfAll_cons_group,
      mentionsOfAll_append_punct, mentionsOfAll_cons_of_plain plain, inner, outer]
    simp only [mentionsOfAll, List.length_nil]
    omega

namespace RuleSet

/-- The call that a text is, in place of an item. -/
def callOf (source : List Char) : Attempt SyntaxError Grammar.NamedCall :=
  Grammar.parseText (fun _ => do
    let _ ← Grammar.outerAttributes
    Grammar.callItem) source

/-- The first case of a definition has a pattern of these tokens. -/
def HasPattern (source : List Char) (ts : List TokenTree) : Prop :=
  ∃ named d extent rest, callOf source = .ok named ∧ named.call.body = .group d ts extent :: rest

theorem callOf_of_parse {source : List Char} {rules : RuleSet} (parsed : parse source = .ok rules) :
    ∃ named, callOf source = .ok named ∧ ofCall named = .ok rules := by
  obtain ⟨tokens, scanned, read⟩ := Grammar.of_parseText parsed
  obtain ⟨after, read, ended⟩ := Grammar.of_parseAll read
  obtain ⟨skipped, past, attributes, read⟩ := Grammar.of_bind read
  obtain ⟨named, behind, called, given⟩ := Grammar.of_bind read
  cases defined : ofCall named with
  | error cause =>
    rw [defined] at given
    cases given
  | ok found =>
    rw [defined] at given
    cases given
    have whole : (do
        let _ ← Grammar.outerAttributes
        Grammar.callItem : Grammar.Parser Grammar.NamedCall) ⟨tokens, false, none⟩ =
        .ok (named, after) := by
      change (Grammar.outerAttributes ⟨tokens, false, none⟩ >>= fun (_, past) =>
        Grammar.callItem past) = _
      rw [attributes]
      exact called
    refine ⟨named, ?_, defined⟩
    rw [callOf, Grammar.parseText, scanned]
    change Grammar.parseAll _ tokens = .ok named
    obtain ⟨ahead, displaced, last⟩ := after
    cases ended
    rw [Grammar.parseAll, whole]
    rfl

theorem pattern_of_readCases {body : List TokenTree} {c : RuleCase} {later : List RuleCase}
    (read : readCases body = .ok (c :: later)) :
    ∃ d left extent rest, body = .group d left extent :: rest ∧
      Piece.ofTokens .pattern left = .ok c.pattern := by
  unfold readCases at read
  split at read
  next => cases read
  next d left extent rest =>
    obtain ⟨pattern, made, read⟩ := Attempt.of_bind_ok read
    refine ⟨d, left, extent, rest, rfl, ?_⟩
    split at read
    next =>
      obtain ⟨template, _, read⟩ := Attempt.of_bind_ok read
      split at read <;>
      · obtain ⟨others, _, same⟩ := Attempt.of_bind_ok read
        cases same
        exact made
    next => cases read
  next => cases read

end RuleSet

/-- The tokens of the pattern of a supported definition spell one metavariable, and those that its
separator spells. -/
theorem supported_pattern_mentions {source : List Char} {rules : RuleSet} {shape : SupportedShape}
    (parsed : RuleSet.parse source = .ok rules)
    (accepted : SupportedShape.ofRules rules = .ok shape) :
    ∃ ts separator, RuleSet.HasPattern source ts ∧ Separated separator ts ∧
      mentionsOfAll ts = mentionsOfAll separator + 1 := by
  obtain ⟨named, called, defined⟩ := RuleSet.callOf_of_parse parsed
  obtain ⟨only, single, ⟨r, fragment, supported, _⟩, _⟩ :=
    ((shape_decided rules).ok_iff shape).mp accepted
  have read := RuleSet.readCases_of_ofCall defined
  rw [single] at read
  obtain ⟨d, left, extent, rest, body, made⟩ := RuleSet.pattern_of_readCases read
  obtain ⟨separator, separated, mentions⟩ := supported.mentions (ofTokens_eq_ok_iff.mp made)
  exact ⟨left, separator, ⟨named, d, extent, rest, called, body⟩, separated, mentions⟩

/-- A supported definition with a comma for a separator. -/
theorem supported_pattern_mentions_comma :
    let source := "macro_rules! m \x7b ($($i:item),*) => ($($i)*) \x7d".toList
    ∃ rules shape, RuleSet.parse source = .ok rules ∧ SupportedShape.ofRules rules = .ok shape ∧
      ∃ ts separator, RuleSet.HasPattern source ts ∧ Separated separator ts ∧
        mentionsOfAll ts = mentionsOfAll separator + 1 := by
  intro source
  have checked : (RuleSet.parse source).toOption.bind (fun rules =>
      (SupportedShape.ofRules rules).toOption.map (·.binding.name)) = some "i" := by
    decide +kernel
  obtain ⟨rules, read, judged⟩ := Option.bind_eq_some_iff.mp checked
  obtain ⟨shape, found, _⟩ := Option.map_eq_some_iff.mp judged
  have parsed : RuleSet.parse source = .ok rules := Attempt.of_toOption read
  have accepted : SupportedShape.ofRules rules = .ok shape := Attempt.of_toOption found
  exact ⟨rules, shape, parsed, accepted, supported_pattern_mentions parsed accepted⟩

/-- A supported definition with a second metavariable for a separator. -/
theorem two_mentions_supported :
    let source := "macro_rules! m \x7b ($($i:item) $x:ident *) => ($($i)*) \x7d".toList
    ∃ rules shape ts, RuleSet.parse source = .ok rules ∧
      SupportedShape.ofRules rules = .ok shape ∧ RuleSet.HasPattern source ts ∧
      mentionsOfAll ts = 2 := by
  intro source
  have checked : (RuleSet.parse source).toOption.bind (fun rules =>
      (SupportedShape.ofRules rules).toOption.map (·.binding.name)) = some "i" := by
    decide +kernel
  obtain ⟨rules, read, judged⟩ := Option.bind_eq_some_iff.mp checked
  obtain ⟨shape, found, _⟩ := Option.map_eq_some_iff.mp judged
  have parsed : RuleSet.parse source = .ok rules := Attempt.of_toOption read
  have accepted : SupportedShape.ofRules rules = .ok shape := Attempt.of_toOption found
  have counted : (RuleSet.callOf source).toOption.map
      (fun named => named.call.body.head?.map TokenTree.mentions) = some (some 2) := by
    decide +kernel
  obtain ⟨named, called, counted⟩ := Option.map_eq_some_iff.mp counted
  obtain ⟨t, first, two⟩ := Option.map_eq_some_iff.mp counted
  obtain ⟨rest, body⟩ := List.head?_eq_some_iff.mp first
  cases t with
  | group d ts extent =>
    have has : RuleSet.HasPattern source ts :=
      ⟨named, d, extent, rest, Attempt.of_toOption called, body⟩
    exact ⟨rules, shape, ts, parsed, accepted, has, two⟩
  | _ => cases two

end MacroExpansion
