import MacroExpansion.Proofs.Definition.Separator
import MacroExpansion.Proofs.Expansion.Template
import MacroExpansion.Proofs.Template.Segments
import MacroExpansion.Proofs.Template.Sigil

/-!
# Which metavariables are replaced

A definition has metavariables among its tokens, and its template is pasted as text. Main statement:
of the metavariables of a supported template those are replaced that are written as a `$` right in
front of the name. The others stay: with a blank or a comment in between, or, unless the name begins
like it, with the mark of a raw identifier.
-/
namespace MacroExpansion

open Piece TokenTree

namespace Token

open Text

theorem Word.sign_notMem {word : List Char} (spelled : Word word) : '$' ∉ word := by
  cases spelled with
  | mk start parts =>
    rw [List.mem_cons, not_or]
    refine ⟨?_, fun member => ?_⟩
    · rintro rfl
      exact absurd start (by decide)
    · exact absurd (parts '$' member) (by decide)

/-- A word is not how a raw identifier starts, but for the letter of its mark. -/
theorem Word.not_prefix_raw {word rest : List Char} (spelled : Word word) (other : word ≠ ['r']) :
    ¬ word <+: 'r' :: '#' :: rest := by
  cases spelled with
  | @mk c cs start parts =>
    intro starts
    obtain ⟨rfl, later⟩ := List.cons_prefix_cons.mp starts
    cases cs with
    | nil => exact other rfl
    | cons d cs =>
      obtain ⟨rfl, -⟩ := List.cons_prefix_cons.mp later
      exact absurd (parts '#' List.mem_cons_self) (by decide)

/-- The numbers of the characters that separate tokens. -/
def separatorCodes : List Nat :=
  [0x09, 0x0A, 0x0B, 0x0C, 0x0D, 0x20, 0x85, 0xA0, 0x1680, 0x2000, 0x2001, 0x2002, 0x2003, 0x2004,
    0x2005, 0x2006, 0x2007, 0x2008, 0x2009, 0x200A, 0x200E, 0x200F, 0x2028, 0x2029, 0x202F, 0x205F,
    0x3000]

theorem mem_separatorCodes {c : Char} (separates : isSeparator c) : c.toNat ∈ separatorCodes := by
  simp only [isSeparator, isBlank, Bool.or_eq_true, Bool.and_eq_true, decide_eq_true_eq,
    beq_iff_eq] at separates
  simp only [separatorCodes, List.mem_cons, List.not_mem_nil, or_false]
  omega

theorem not_separator_of_start {c : Char} (letter : isIdentifierStart c) : ¬ isSeparator c := by
  intro separates
  have other : ∀ n ∈ separatorCodes, isIdentifierStart (Char.ofNat n) = false := by decide +kernel
  have noStart := other _ (mem_separatorCodes separates)
  rw [Char.ofNat_toNat, letter] at noStart
  cases noStart

/-- A name is no separator. -/
theorem Word.separatorStep? {word : List Char} (spelled : Word word) (rest : List Char) :
    separatorStep? (word ++ rest) = none := by
  cases spelled with
  | @mk c cs start _ =>
    have other : c ≠ '/' := by
      rintro rfl
      exact absurd start (by decide)
    have plain : isSeparator c = false := Bool.eq_false_iff.mpr (not_separator_of_start start)
    have line : startsLineComment (c :: (cs ++ rest)) = false := by
      simp [startsLineComment, other]
    simp [separatorStep?_eq, line, plain, other.symm]

end Token

namespace Piece

variable {μ : Type}

mutual

theorem ownMetavariables_unplaced (p : Piece μ) :
    p.unplaced.ownMetavariables = p.ownMetavariables := by
  match p with
  | .group content => exact metavariables_unplacedAll content
  | .token _ | .metavariable _ | .repetition _ _ => rfl

/-- Metavariables do not hang on places. -/
theorem metavariables_unplacedAll (ps : List (Piece μ)) :
    metavariables (unplacedAll ps) = metavariables ps := by
  match ps with
  | [] => rfl
  | p :: ps =>
    rw [unplacedAll, metavariables, metavariables, ownMetavariables_unplaced p,
      metavariables_unplacedAll ps]

end

mutual

theorem hasRepetition_unplaced (p : Piece μ) : p.unplaced.hasRepetition = p.hasRepetition := by
  match p with
  | .group content => exact anyRepetition_unplacedAll content
  | .token _ | .metavariable _ | .repetition _ _ => rfl

/-- Nor does it whether there is a repetition. -/
theorem anyRepetition_unplacedAll (ps : List (Piece μ)) :
    anyRepetition (unplacedAll ps) = anyRepetition ps := by
  match ps with
  | [] => rfl
  | p :: ps =>
    rw [unplacedAll, anyRepetition, anyRepetition, hasRepetition_unplaced p,
      anyRepetition_unplacedAll ps]

end

end Piece

/-- The only metavariable of a pattern is written among its tokens. -/
theorem SupportedPattern.sigil {ts : List TokenTree} {pattern : Pattern} {r : Repetition Fragment}
    {fragment : Fragment} (supported : SupportedPattern pattern r fragment)
    (read : ofTokens .pattern ts = .ok pattern) :
    ∃ s ∈ sigilsOfAll ts, s.ident = fragment.name := by
  have own : r ∈ ownRepetitions pattern := by
    rw [supported.has.single]
    exact List.mem_singleton.mpr rfl
  have among : .repetition r.content r.parentheses ∈ pattern :=
    mem_of_repetitions (repetitions_eq_ok supported.has.flat) own
  rcases of_mem_read read among with begun | ⟨inside, member, within⟩
  · cases begun
  · have written := (ofTokens_eq_ok_iff.mp within).sigils Spelling.labels_pattern
      supported.content.simple
    obtain ⟨address, stands⟩ := supported.content.binds
    have bound : fragment.name ∈ (metavariables r.content).map Fragment.name :=
      List.mem_map_of_mem (mem_metavariables stands)
    rw [written] at bound
    obtain ⟨s, found, same⟩ := List.mem_map.mp bound
    exact ⟨s, sigilsOfAll_subset member found, same⟩

/-- The name of the metavariable that stands for items is a word. -/
theorem word_of_ofRules {source : List Char} {rules : RuleSet} {shape : SupportedShape}
    (parsed : RuleSet.parse source = .ok rules)
    (accepted : SupportedShape.ofRules rules = .ok shape) :
    Token.Word shape.binding.name.toList := by
  obtain ⟨tokens, d, body, extent, scanned, member, read⟩ := RuleSet.group_of_parse parsed
  obtain ⟨only, single, ⟨r, fragment, supported, named⟩, -⟩ :=
    ((shape_decided rules).ok_iff shape).mp accepted
  rw [single] at read
  obtain ⟨e, left, place, rest, rfl, made⟩ := RuleSet.pattern_of_readCases read
  have first : .group e left place ∈ .group e left place :: rest := List.mem_cons_self
  obtain ⟨s, among, same⟩ := supported.sigil made
  obtain ⟨_, _, _, written⟩ :=
    sigil_written scanned (sigilsOfAll_subset member (sigilsOfAll_subset first among))
  rw [named, ← same]
  exact written.word

/-- The template of a supported definition has tokens of its own, which have the metavariables of
its repetition. -/
theorem tokens_of_templateText {source text : List Char} {shape : SupportedShape}
    {r : Repetition Ident} (template : TemplateText source shape r text)
    (simple : ¬ Repeats r.content) :
    ∃ tokens, ofText? text = some tokens ∧
      metavariables r.content = (sigilsOfAll tokens).map Sigil.ident := by
  obtain ⟨pieces, read, same⟩ := template.pieces
  unfold Piece.parse at read
  split at read
  · cases read
  next tokens scanned =>
    split at read <;> cases read
    next made =>
      have alike : ¬ Repeats pieces := by
        rw [← anyRepetition_iff] at simple ⊢
        rwa [← anyRepetition_unplacedAll, same, anyRepetition_unplacedAll]
      have written := (ofTokens_eq_ok_iff.mp made).sigils Spelling.labels_template alike
      refine ⟨tokens, scanned, ?_⟩
      rw [← metavariables_unplacedAll, ← same, metavariables_unplacedAll, ← written, List.map_id]

namespace Sigil.Written

variable {s : Sigil} {text before gap after : List Char}

/-- Where something separates a `$` from the name after it, the name does not follow the `$`. -/
theorem apart_of_gap (written : s.Written text before gap after) (separated : gap ≠ [])
    {word : List Char} (spelled : Token.Word word) :
    ¬ word <+: gap ++ (s.spelling.toList ++ after) := by
  rintro ⟨rest, same⟩
  have stuck : Text.skipSeparators (gap ++ (s.spelling.toList ++ after)) =
      gap ++ (s.spelling.toList ++ after) := by
    rw [← same]
    exact Token.skipSeparators_of_none (spelled.separatorStep? rest)
  rw [written.apart] at stuck
  have lengths := congrArg List.length stuck
  simp only [List.length_append] at lengths
  exact separated (List.eq_nil_of_length_eq_zero (by omega))

end Sigil.Written

/-- What a name is spelled with is the name, or that behind the mark of a raw identifier. -/
theorem Ident.spelled_or_raw (spelling : String) :
    spelling = (ofSpelling spelling).name ∨
      spelling.toList = 'r' :: '#' :: (ofSpelling spelling).name.toList := by
  unfold ofSpelling unraw
  split
  next cs marked => exact .inr (by simp [marked])
  next => exact .inl rfl

/-- A part of a template with an argument in place of the metavariables. -/
def Template.copy (binding : Ident) (argument part : List Char) : List Char :=
  paste (placeholder binding) part argument

/-- What becomes of the metavariables that stand for items when an argument is pasted. -/
structure Pasted (binding : Ident) (text : List Char) (tokens : List TokenTree)
    (argument : List Char) : Prop where
  /-- A name that is written as it is and right after the `$` is replaced with it. One that stands
  apart stays with its `$`, and so does a raw one, unless it is the letter that the mark of raw
  identifiers begins with. -/
  each : ∀ s ∈ sigilsOfAll tokens, s.ident = binding → ∃ before gap after,
    s.Written text before gap after ∧
    (gap = [] → s.spelling = binding.name → Template.copy binding argument text =
      Template.copy binding argument before ++ (argument ++ Template.copy binding argument after)) ∧
    (gap ≠ [] ∨ s.spelling ≠ binding.name ∧ binding.name ≠ "r" →
      Template.copy binding argument text = Template.copy binding argument before ++
        '$' :: Template.copy binding argument (gap ++ (s.spelling.toList ++ after)))
  /-- All that is left of `$`s are those that the name does not follow. -/
  left : '$' ∉ argument → ∀ us vs, Template.copy binding argument text = us ++ '$' :: vs ↔
    ∃ before after, text = before ++ '$' :: after ∧ ¬ binding.name.toList <+: after ∧
      us = Template.copy binding argument before ∧ vs = Template.copy binding argument after

theorem pasted_of_word {binding : Ident} {text : List Char} {tokens : List TokenTree}
    (scanned : ofText? text = some tokens) (word : Token.Word binding.name.toList)
    (argument : List Char) : Pasted binding text tokens argument where
  each := by
    intro s member bound
    obtain ⟨before, gap, after, written⟩ := sigil_written scanned member
    refine ⟨before, gap, after, written, fun gapless plain => ?_, fun other => ?_⟩
    · rw [written.whole, gapless, plain]
      exact Template.paste_occurrence word.sign_notMem before after argument
    · rw [written.whole]
      refine Template.paste_other_sign word.sign_notMem ?_ before argument
      by_cases separated : gap = []
      · obtain ⟨raw, letter⟩ := other.resolve_left (not_not_intro separated)
        have spelled := (Ident.spelled_or_raw s.spelling).resolve_left
          fun plain => raw (plain.trans (congrArg Ident.name bound))
        rw [separated, List.nil_append, spelled]
        exact word.not_prefix_raw fun same => letter (String.toList_inj.mp same)
      · exact written.apart_of_gap separated word
  left := fun free _ _ => Template.paste_eq_append_sign_iff word.sign_notMem free

/-- The metavariables of a supported template are those that its text has tokens for. In the copy
for an argument those that are written plainly are replaced, and the others stay. -/
theorem plain_metavariables_replaced {source : List Char} {rules : RuleSet} {shape : SupportedShape}
    (parsed : RuleSet.parse source = .ok rules)
    (accepted : SupportedShape.ofRules rules = .ok shape) :
    ∃ only r text tokens, rules.cases = [only] ∧ repetitions only.template = .ok [r] ∧
      extractTemplate source shape = some text ∧ ofText? text = some tokens ∧
      metavariables r.content = (sigilsOfAll tokens).map Sigil.ident ∧
      ∀ argument, Template.instantiate text shape.binding [argument] =
          Template.copy shape.binding argument text ∧
        Pasted shape.binding text tokens argument := by
  obtain ⟨only, r, text, single, repeated, -, template⟩ := templateText_of_ofRules parsed accepted
  obtain ⟨only', single', -, r', supported, -⟩ := ((shape_decided rules).ok_iff shape).mp accepted
  cases single.symm.trans single'
  have same := (repetitions_eq_ok supported.has.flat).symm.trans repeated
  rw [supported.has.single] at same
  cases same
  obtain ⟨tokens, scanned, mentioned⟩ := tokens_of_templateText template supported.simple
  have word := word_of_ofRules parsed accepted
  have one (argument : List Char) : Template.instantiate text shape.binding [argument] =
      Template.copy shape.binding argument text := by
    simp [Template.instantiate, Template.copy]
  exact ⟨only, r, text, tokens, single, repeated, template.extracted, scanned, mentioned,
    fun argument => ⟨one argument, pasted_of_word scanned word argument⟩⟩

/-- A template with a metavariable in two groups, one behind a comment and a raw one. -/
theorem plain_metavariables_replaced_nested :
    let source :=
      "macro_rules! m \x7b ($($i:item)*) => ($(mod a \x7b [$i] \x7d $/**/i $r#i)*) \x7d".toList
    ∃ rules shape, RuleSet.parse source = .ok rules ∧ SupportedShape.ofRules rules = .ok shape ∧
      ∃ only r text tokens, rules.cases = [only] ∧ repetitions only.template = .ok [r] ∧
        extractTemplate source shape = some text ∧ ofText? text = some tokens ∧
        metavariables r.content = (sigilsOfAll tokens).map Sigil.ident ∧
        ∀ argument, Template.instantiate text shape.binding [argument] =
            Template.copy shape.binding argument text ∧
          Pasted shape.binding text tokens argument := by
  intro source
  have checked : (RuleSet.parse source).toOption.bind (fun rules =>
      (SupportedShape.ofRules rules).toOption.map (·.binding.name)) = some "i" := by
    decide +kernel
  obtain ⟨rules, read, judged⟩ := Option.bind_eq_some_iff.mp checked
  obtain ⟨shape, found, _⟩ := Option.map_eq_some_iff.mp judged
  have parsed : RuleSet.parse source = .ok rules := Attempt.of_toOption read
  have accepted : SupportedShape.ofRules rules = .ok shape := Attempt.of_toOption found
  exact ⟨rules, shape, parsed, accepted, plain_metavariables_replaced parsed accepted⟩

/-- The metavariables of a supported template that a blank, a comment and the mark of a raw
identifier separate from their `$` are in the copy for an argument still, which has no `$`. -/
theorem separated_metavariable_stays :
    let source := "macro_rules! m \x7b ($($i:item)*) => ($($ i $/**/i $r#i)*) \x7d".toList
    let argument := "struct A;".toList
    ∃ rules shape text copy tokens, RuleSet.parse source = .ok rules ∧
      SupportedShape.ofRules rules = .ok shape ∧ extractTemplate source shape = some text ∧
      '$' ∉ argument ∧ Template.instantiate text shape.binding [argument] = copy ∧
      ofText? copy = some tokens ∧
      (sigilsOfAll tokens).map Sigil.ident = [shape.binding, shape.binding, shape.binding] := by
  intro source argument
  have checked : (RuleSet.parse source).toOption.bind (fun rules =>
      (SupportedShape.ofRules rules).toOption.bind fun shape =>
        (extractTemplate source shape).bind fun text =>
          (ofText? (Template.instantiate text shape.binding [argument])).map fun tokens =>
            decide ((sigilsOfAll tokens).map Sigil.ident =
              [shape.binding, shape.binding, shape.binding])) = some true := by
    decide +kernel
  obtain ⟨rules, read, judged⟩ := Option.bind_eq_some_iff.mp checked
  obtain ⟨shape, found, judged⟩ := Option.bind_eq_some_iff.mp judged
  obtain ⟨text, extracted, judged⟩ := Option.bind_eq_some_iff.mp judged
  obtain ⟨tokens, scanned, stay⟩ := Option.map_eq_some_iff.mp judged
  exact ⟨rules, shape, text, _, tokens, Attempt.of_toOption read, Attempt.of_toOption found,
    extracted, by decide, rfl, scanned, of_decide_eq_true stay⟩

end MacroExpansion
