import MacroExpansion.Proofs.Definition.Shape
import MacroExpansion.Proofs.Expansion.Failures

/-!
# The template that is pasted

A definition is judged by its token trees, and its template is cut out of its text by bytes. Main
statement: the two agree. From a supported definition a text is cut out that is not empty, stands
between the parentheses of the template's only repetition, and has the pieces of that repetition,
but for their places. So no expansion fails for want of a template.
-/
namespace MacroExpansion

/-- The text between parentheses is cut out, if there is any. -/
theorem Text.between?_parentheses {before inner after : List Char} (filled : inner ≠ []) :
    between? (before ++ '(' :: (inner ++ ')' :: after)) (byteSize before)
      (byteSize before + 1 + byteSize inner + 1) = some inner := by
  have one : '('.utf8Size = 1 := by decide
  have start : byteSize (before ++ ['(']) = byteSize before + 1 := by simp [one]
  have cut := slice?_append (before ++ ['(']) inner (')' :: after)
  simp only [List.append_assoc, List.cons_append, List.nil_append] at cut
  rw [start] at cut
  unfold between?
  rw [if_neg (by omega), Nat.add_sub_cancel, cut]
  cases inner with
  | nil => exact absurd rfl filled
  | cons c cs => rfl

/-- A text is the template of a definition, as the shape of the definition tells where it stands and
one repetition tells what is in it. -/
structure TemplateText (source : List Char) (shape : SupportedShape)
    (r : Piece.Repetition Ident) (text : List Char) : Prop where
  extracted : extractTemplate source shape = some text
  filled : text ≠ []
  /-- It is all that stands between the parentheses. -/
  enclosed : ∃ before after, source = before ++ '(' :: (text ++ ')' :: after) ∧
    shape.template.start.offset = Text.byteSize before ∧
    shape.template.stop.offset = Text.byteSize (before ++ '(' :: (text ++ [')']))
  /-- It can be read on its own. -/
  pieces : ∃ pieces, Piece.parse .template text = .ok pieces ∧
    Piece.unplacedAll pieces = Piece.unplacedAll r.content

theorem Piece.parse_of_ofText? {μ : Type} {spelling : Spelling μ} {text : List Char}
    {tokens : List TokenTree} {pieces : List (Piece μ)}
    (scanned : TokenTree.ofText? text = some tokens)
    (read : ofTokens spelling tokens = .ok pieces) : parse spelling text = .ok pieces := by
  simp only [parse, scanned, read]

/-- A supported definition has a template in its text. -/
theorem templateText_of_ofRules {source : List Char} {rules : RuleSet} {shape : SupportedShape}
    (parsed : RuleSet.parse source = .ok rules)
    (accepted : SupportedShape.ofRules rules = .ok shape) :
    ∃ only r text, rules.cases = [only] ∧ Piece.repetitions only.template = .ok [r] ∧
      r.parentheses = shape.template ∧ TemplateText source shape r text := by
  obtain ⟨tokens, inside, only, r, scanned, within, content, single, repeated, filled, place⟩ :=
    SupportedShape.within_of_ofRules parsed accepted
  obtain ⟨before, text, after, alone, rfl, start, stop, scannedAlone, alike, nonempty⟩ :=
    TokenTree.text_of_within scanned within
  have tokened : inside ≠ [] := by
    rintro rfl
    exact filled (Except.ok.inj content).symm
  have filledText := nonempty tokened
  obtain ⟨pieces, read, same⟩ := Piece.ofTokens_alike alike content
  refine ⟨only, r, text, single, repeated, place, ?_, filledText, ⟨before, after, rfl, start, ?_⟩,
    pieces, Piece.parse_of_ofText? scannedAlone read, same⟩
  · rw [extractTemplate, start, stop]
    exact Text.between?_parentheses filledText
  · have one : '('.utf8Size = 1 ∧ ')'.utf8Size = 1 := by decide
    simp only [Text.byteSize_append, Text.byteSize_cons, Text.byteSize_nil, one]
    omega

/-- The template of a supported definition is the text between the parentheses of its repetition,
with the same pieces, and no expansion at all fails because a template is not found. -/
theorem validated_template_pasted {source : List Char} {rules : RuleSet} {shape : SupportedShape}
    (parsed : RuleSet.parse source = .ok rules)
    (accepted : SupportedShape.ofRules rules = .ok shape) :
    (∃ only r text, rules.cases = [only] ∧ Piece.repetitions only.template = .ok [r] ∧
      r.parentheses = shape.template ∧ TemplateText source shape r text) ∧
    ∀ lookup invocation,
      (expandMacro lookup invocation).result ≠ Attempt.fail .templateExtractFailed := by
  refine ⟨templateText_of_ofRules parsed accepted, fun lookup invocation failed => ?_⟩
  have others : Attempt.FailsWith (· ≠ .templateExtractFailed)
      (expandMacro lookup invocation).result := by
    refine failsWith_expandMacro (fun cause early same => ?_)
      (fun definition shape _ judged unextracted => ?_) (fun _ => nofun)
    · subst same
      exact early
    · obtain ⟨rules, parsed, judged⟩ := Attempt.of_bind_ok judged
      cases accepted : SupportedShape.ofRules rules with
      | error reason =>
        rw [accepted] at judged
        cases judged
      | ok found =>
        rw [accepted] at judged
        cases judged
        obtain ⟨_, _, _, _, _, _, told⟩ :=
          templateText_of_ofRules (Attempt.of_mapError_ok parsed) accepted
        rw [told.extracted] at unextracted
        cases unextracted
  exact others _ failed rfl

/-- A template with comments, a parenthesis in each, after a byte-order mark and other text of more
bytes than characters. -/
theorem validated_template_pasted_commented :
    let source :=
      "\uFEFFmacro_rules! m \x7b ($($i:item)*) => (é $(/* ) ü */ $i /// )\n)*) \x7d".toList
    let text := "/* ) ü */ $i /// )\n".toList
    ∃ rules shape, RuleSet.parse source = .ok rules ∧ SupportedShape.ofRules rules = .ok shape ∧
      shape.template.start.offset = 42 ∧ shape.template.stop.offset = 64 ∧
      (∃ only r, rules.cases = [only] ∧ Piece.repetitions only.template = .ok [r] ∧
        r.parentheses = shape.template ∧ TemplateText source shape r text) ∧
      ∀ lookup invocation,
        (expandMacro lookup invocation).result ≠ Attempt.fail .templateExtractFailed := by
  intro source text
  have checked : (RuleSet.parse source).toOption.bind (fun rules =>
      (SupportedShape.ofRules rules).toOption.map fun shape =>
        (shape.template.start.offset, shape.template.stop.offset,
          extractTemplate source shape)) = some (42, 64, some text) := by
    decide +kernel
  obtain ⟨rules, read, judged⟩ := Option.bind_eq_some_iff.mp checked
  obtain ⟨shape, found, told⟩ := Option.map_eq_some_iff.mp judged
  obtain ⟨start, told⟩ := Prod.mk.inj told
  obtain ⟨stop, extracted⟩ := Prod.mk.inj told
  have parsed : RuleSet.parse source = .ok rules := Attempt.of_toOption read
  have accepted : SupportedShape.ofRules rules = .ok shape := Attempt.of_toOption found
  obtain ⟨⟨only, r, _, single, repeated, place, template⟩, never⟩ :=
    validated_template_pasted parsed accepted
  obtain rfl := Option.some.inj (template.extracted.symm.trans extracted)
  exact ⟨rules, shape, parsed, accepted, start, stop, ⟨only, r, single, repeated, place, template⟩,
    never⟩

end MacroExpansion
