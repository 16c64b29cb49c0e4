import MacroExpansion.Proofs.Expansion.Attribution
import MacroExpansion.Proofs.Grammar.Static
import MacroExpansion.Proofs.Token.Word
import MacroExpansion.Proofs.Walk.Alone

/-!
# Lazily evaluated statics

The word `ref` is cut out of a declaration with the blanks around it. Main statement: where no line
comment stands directly ahead of the word, the invocation expands to one static, with the name and
the attributes of the declaration, and with its tokens but for `ref`.
-/
namespace MacroExpansion

open Grammar TokenTree Text

/-! ## The text of the declaration -/

/-- What is cut out of a text that has a word is the word and the blanks around it. -/
theorem LazyStatic.cutOut_word {before after word : List Char} {mark : Extent}
    (start : mark.start.offset = byteSize before)
    (stop : mark.stop.offset = byteSize before + byteSize word) :
    LazyStatic.cutOut (before ++ (word ++ after)) mark =
      .ok (trimEnd before ++ ' ' :: trimStart after) := by
  have ahead : takeBytes? mark.start.offset (before ++ (word ++ after)) = some before := by
    rw [start, takeBytes?_append]
  have behind : dropBytes? mark.stop.offset (before ++ (word ++ after)) = some after := by
    have whole := dropBytes?_append (before ++ word) after 0
    rw [Nat.add_zero, byteSize_append, dropBytes?_zero, List.append_assoc] at whole
    rw [stop, whole]
  rw [LazyStatic.cutOut, ahead, behind]
  rfl

/-- In whatever is accepted as a declaration both cuts succeed: they are made around its `ref`,
which is a word of the text. -/
theorem LazyStatic.cutOut_of_accepted {arguments : List Char} {mark : Extent}
    (parsed : parseText lazyStatic arguments = .ok mark) :
    ∃ before after, arguments = before ++ ("ref".toList ++ after) ∧
      LazyStatic.cutOut arguments mark = .ok (trimEnd before ++ ' ' :: trimStart after) := by
  obtain ⟨ts, found, whole⟩ := of_parseText parsed
  obtain ⟨front, back, _, _, rfl, _⟩ := fileOf_lazyStatic whole
  obtain ⟨before, after, _, rfl, start, stop, _⟩ := word_of_ofText? found
  exact ⟨before, after, rfl, LazyStatic.cutOut_word start stop⟩

/-- The text of a declaration, trimmed, has its tokens but for `ref`. -/
theorem ofText?_declaration {arguments : List Char} {front back : List TokenTree} {mark : Extent}
    {names : List String} {spelling : String}
    (found : ofText? arguments = some (front ++ .ident "ref" mark :: back))
    (declares : Declares front back mark names spelling)
    (closed : ∀ early place, front = early ++ [.ident "static" place] →
      ∀ gap ∈ slice? arguments place.stop.offset mark.start.offset, ¬ EndsLine gap) :
    ∃ own us joint extent, LazyStatic.cutOut arguments mark = .ok own ∧
      ofText? (trim own) = some (us ++ [.punct ';' joint extent]) ∧
      unplacedAll (us ++ [.punct ';' joint extent]) = unplacedAll (front ++ back) := by
  obtain ⟨early, place, rfl⟩ := declares.static
  rw [List.append_assoc, List.singleton_append] at found
  have readable : ∀ c ∈ "static".toList.head?, c ∉ Lexeme.unreadable := by
    rintro _ ⟨⟩
    decide
  have joins : ∀ c ∈ "ref".toList.head?, isIdentifierPart c := by
    rintro _ ⟨⟩
    decide
  obtain ⟨before, after, us, rfl, start, stop, joined, same⟩ :=
    ofText?_without_word found readable ⟨'c', rfl, by decide⟩ joins (closed early place rfl)
  obtain ⟨vs, trimmed, moved⟩ := ofText?_trimStart joined
  obtain ⟨inner, joint, extent, rfl⟩ := declares.semicolon
  rw [← List.singleton_append, ← List.append_assoc, ← List.append_assoc] at same
  obtain ⟨own, place, rfl⟩ := ends_punct (moved.trans same)
  refine ⟨_, own, joint, place, LazyStatic.cutOut_word start stop, ofText?_trimEnd trimmed, ?_⟩
  rw [moved, same, List.append_assoc]

/-! ## The element -/

/-- Where the text of a declaration has its tokens but for `ref`, it is a unit with one element: a
static of its name and with its attributes, whose text has these tokens. -/
theorem element_of_declaration (fileName : String) {own : List Char} {ts us inner : List TokenTree}
    {joint : Bool} {extent : Extent} {i : Item} {description : Item.Description}
    (scanned : ofText? own = some us) (same : unplacedAll us = unplacedAll ts)
    (semicolon : us = inner ++ [.punct ';' joint extent])
    (bare : Look.innerAttribute ts = false) (each : ∀ us, seenAll us = seenAll ts → FileOf i us)
    (told : i.describe = some description) (invocation : Span) :
    ∃ u e piece, (ScratchUnit.parse fileName own).result = .ok u ∧
      u.elements (some invocation) = [e] ∧ e.kind = description.kind ∧ e.name = description.name ∧
      e.attributes = i.head.attributes ∧ ofText? e.text.toList = some piece ∧
      unplacedAll piece = unplacedAll ts := by
  have bareOwn : Look.innerAttribute us = false := by
    rw [← placeless_unplaced Look.innerAttribute us, same,
      placeless_unplaced Look.innerAttribute ts,
      bare]
  obtain ⟨j, piece, alone, parsed, alike, cut, scannedPiece, likePiece⟩ :=
    FileOf.cut scanned bareOwn semicolon (fun vs seen => each vs (seen.trans (seenAll_eq same)))
      fileName
  have described := alike.describe.trans told
  have read : (ScratchUnit.parse fileName own).result = .ok ⟨fileName, own, [j]⟩ := by
    rw [ScratchUnit.result_parse, parsed]
    rfl
  have elements : ScratchUnit.elements ⟨fileName, own, [j]⟩ (some invocation) =
      [⟨description.kind, description.name, j.head.attributes, String.ofList piece,
        Span.within (some invocation) (j.head.extent.place fileName)⟩] := by
    rw [ScratchUnit.elements, List.filterMap_cons, ScratchUnit.element?, described, cut]
    rfl
  refine ⟨_, _, alone, read, elements, rfl, rfl, ?_, ?_, likePiece.trans same⟩
  · exact alike.attributes (by rw [told]; rfl)
  · rw [String.toList_ofList]
    exact scannedPiece

/-- A static that is declared with no line comment directly ahead of `ref`. Its invocation expands
to one result, whatever it is looked up as: a static with the name and the attributes of the
declaration, whose text has the tokens of the declaration but for `ref`. -/
theorem static_declared_without_ref {invocation : MacroInvocation} {scope : ScopeId}
    {arguments : List Char} {mark : Extent} (named : invocation.name = LazyStatic.invocationName)
    (placed : invocation.context.scope? = some scope)
    (given : argumentText invocation.source.toList = .ok arguments)
    (parsed : parseText lazyStatic arguments = .ok mark)
    (closed : ∀ early place back,
      ofText? arguments = some (early ++ .ident "static" place :: .ident "ref" mark :: back) →
      ∀ gap ∈ slice? arguments place.stop.offset mark.start.offset, ¬ EndsLine gap) :
    ∃ front back names spelling b, ofText? arguments = some (front ++ .ident "ref" mark :: back) ∧
      Declares front back mark names spelling ∧
      (expandBuiltin? invocation).map Eventful.result = some (.ok [b]) ∧
      (∀ lookup, (expandMacro lookup invocation).result = .ok ⟨.builtin, [b]⟩) ∧
      b.kind = .static ∧ b.name = some (Ident.ofSpelling spelling) ∧ b.attributes = names ∧
      b.context = scope ∧ ∃ own, ofText? b.text.toList = some own ∧
        unplacedAll own = unplacedAll (front ++ back) := by
  obtain ⟨ts, found, whole⟩ := of_parseText parsed
  obtain ⟨front, back, names, spelling, rfl, declares, bare, extent, displaced, each⟩ :=
    fileOf_lazyStatic whole
  obtain ⟨text, us, joint, place, cut, scanned, same⟩ := ofText?_declaration found declares
    fun early place static => closed early place back (by rw [found, static]; simp)
  obtain ⟨u, e, piece, read, single, kind, naming, attributes, scannedPiece, likePiece⟩ :=
    element_of_declaration ScratchUnit.lazyStaticFile scanned same rfl bare each rfl invocation.span
  have declared : LazyStatic.declared invocation.source = .ok (trim text) := by
    have without : LazyStatic.declaration arguments = .ok (trim text) := by
      rw [LazyStatic.declaration, parsed]
      change LazyStatic.cutOut arguments mark >>= _ = _
      rw [cut]
      rfl
    rw [LazyStatic.declared, given]
    exact congrArg (Attempt.mapError _) without
  have element : (LazyStatic.element invocation).result = .ok e := by
    rw [LazyStatic.result_element_eq, declared]
    change (LazyStatic.parsed _).result >>= _ = _
    have unit : (LazyStatic.parsed (trim text)).result = .ok u :=
      congrArg (Attempt.mapError _) read
    rw [unit]
    change LazyStatic.first invocation.span u = _
    rw [LazyStatic.first, single]
    rfl
  refine ⟨front, back, names, spelling, { e with context := scope }, found, declares, ?_,
    fun lookup => ?_, kind, ?_, attributes, rfl, piece, scannedPiece, likePiece⟩
  · have quiet := LazyStatic.quiet_element invocation
    rw [expandBuiltin?, if_pos named, Option.map_some,
      (Eventful.quiet_report rfl).result_bind fun _ =>
        quiet.bind fun _ => Eventful.quiet_ofAttempt _]
    change some (Eventful.result (_ >>= _)) = _
    rw [quiet.result_bind fun _ => Eventful.quiet_ofAttempt _, element]
    exact congrArg some (bindAll_of_scope placed [e])
  · rw [expandMacro_of_static named, result_expandStatic, element]
    change (bindAll [e] invocation.context).map _ = _
    rw [bindAll_of_scope placed]
    rfl
  · rw [naming, Item.declaredName, if_neg declares.named]

/-- A declaration with an attribute, and with a comment ahead of `ref`. -/
theorem static_declared_without_ref_commented :
    let invocation : MacroInvocation := ⟨⟨"lazy_static"⟩,
      "lazy_static!(#[a] static/**/ ref A:u8=1;)", .fake, .block ⟨3⟩⟩
    let arguments := "#[a] static/**/ ref A:u8=1;".toList
    let mark : Extent := ⟨⟨16, 1, 16⟩, ⟨19, 1, 19⟩⟩
    invocation.name = LazyStatic.invocationName ∧ invocation.context.scope? = some ⟨3⟩ ∧
      argumentText invocation.source.toList = .ok arguments ∧
      parseText lazyStatic arguments = .ok mark ∧
      (∀ early place back,
        ofText? arguments = some (early ++ .ident "static" place :: .ident "ref" mark :: back) →
        ∀ gap ∈ slice? arguments place.stop.offset mark.start.offset, ¬ EndsLine gap) ∧
      ∃ front back names spelling b, ofText? arguments = some (front ++ .ident "ref" mark :: back) ∧
        Declares front back mark names spelling ∧
        (expandBuiltin? invocation).map Eventful.result = some (.ok [b]) ∧
        (∀ lookup, (expandMacro lookup invocation).result = .ok ⟨.builtin, [b]⟩) ∧
        b.kind = .static ∧ b.name = some (Ident.ofSpelling spelling) ∧ b.attributes = names ∧
        b.context = ⟨3⟩ ∧ ∃ own, ofText? b.text.toList = some own ∧
          unplacedAll own = unplacedAll (front ++ back) := by
  intro invocation arguments mark
  have given : argumentText invocation.source.toList = .ok arguments :=
    Attempt.of_toOption (by decide +kernel)
  have parsed : parseText lazyStatic arguments = .ok mark :=
    Attempt.of_toOption (by decide +kernel)
  have closed : ∀ early place back,
      ofText? arguments = some (early ++ .ident "static" place :: .ident "ref" mark :: back) →
      ∀ gap ∈ slice? arguments place.stop.offset mark.start.offset, ¬ EndsLine gap := by
    obtain ⟨ahead, before, behind, scanned, stop⟩ : ∃ ahead before behind,
        ofText? arguments =
          some (ahead ++ .ident "static" before :: .ident "ref" mark :: behind) ∧
        before.stop.offset = 11 :=
      ⟨[_, _], _, _, rfl, rfl⟩
    have blank : ¬ EndsLine " ".toList := fun ends =>
      EndsLine.not_nil (ends.later rfl (by decide +kernel))
    have comment : ¬ EndsLine "/**/ ".toList := fun ends =>
      blank (ends.later rfl (by decide +kernel))
    intro early place back found gap cut
    rw [List.append_cons] at found scanned
    obtain ⟨same, -⟩ := word_parts found (Option.some.inj (found.symm.trans scanned)) (by decide)
    obtain ⟨-, last⟩ := List.append_inj' same rfl
    cases last
    have there : slice? arguments 11 16 = some "/**/ ".toList := by decide +kernel
    rw [Option.mem_def, stop, there] at cut
    cases cut
    exact comment
  exact ⟨rfl, rfl, given, parsed, closed,
    static_declared_without_ref rfl rfl given parsed closed⟩

/-- The line break that ends a comment ahead of `ref` is cut out with the blanks: what is left of
the declaration stands in the comment. -/
theorem comment_swallows_declaration :
    let text := "static // c\n ref A: u8 = 1;".toList
    (parseText lazyStatic text).toOption.isSome ∧
      (LazyStatic.declaration text).toOption = some "static // c A: u8 = 1;".toList ∧
      (parseFile (codeOf "static // c A: u8 = 1;".toList)).toOption.isNone := by
  decide +kernel

end MacroExpansion
