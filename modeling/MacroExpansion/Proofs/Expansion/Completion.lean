import MacroExpansion.Proofs.Expansion.LazyStatic
import MacroExpansion.Proofs.Expansion.Nesting
import MacroExpansion.Proofs.Expansion.Outcomes
import MacroExpansion.Proofs.Expansion.Units
import MacroExpansion.Proofs.Grammar.Soundness
import MacroExpansion.Tree.Walk

/-!
# Requests that come to an end

A request is broken off where the reading of a text is, and nowhere else: the word `ref` can be cut
out of whatever was accepted as a declaration. Main statement: an expansion comes to results or to
an error if all texts that are read in its course are sound, and so does the walk of a file whose
code is.
-/
namespace MacroExpansion

namespace Attempt

variable {ε δ α β : Type}

/-- An attempt that is not broken off. -/
def Settled (attempt : Attempt ε α) : Prop :=
  attempt ≠ .error .aborted

theorem settled_ok (a : α) : Settled (.ok a : Attempt ε α) :=
  fun broken => by cases broken

theorem settled_fail (cause : ε) : Settled (fail cause : Attempt ε α) :=
  fun broken => by cases broken

theorem settled_ofOption (cause : ε) (found : Option α) : Settled (ofOption cause found) := by
  cases found with
  | none => exact settled_fail cause
  | some a => exact settled_ok a

theorem Settled.mapError {attempt : Attempt δ α} (h : attempt.Settled) (f : δ → ε) :
    Settled (mapError f attempt) := by
  rcases attempt with (cause | _) | a
  · exact settled_fail _
  · exact absurd rfl h
  · exact settled_ok a

theorem Settled.bind {attempt : Attempt ε α} {next : α → Attempt ε β} (first : attempt.Settled)
    (later : ∀ a, attempt = .ok a → (next a).Settled) : Settled (attempt >>= next) := by
  cases found : attempt with
  | ok a => exact later a found
  | error failure =>
    rw [found] at first
    intro broken
    cases broken
    exact first rfl

theorem Settled.map {attempt : Attempt ε α} (h : attempt.Settled) (f : α → β) :
    Settled (attempt.map f) := by
  rcases attempt with (cause | _) | a
  · exact settled_fail cause
  · exact absurd rfl h
  · exact settled_ok _

/-- An attempt that is not broken off gives a value or an error. -/
theorem Settled.cases {attempt : Attempt ε α} (h : attempt.Settled) :
    (∃ a, attempt = .ok a) ∨ ∃ cause, attempt = fail cause := by
  rcases attempt with (cause | _) | a
  · exact .inr ⟨cause, rfl⟩
  · exact absurd rfl h
  · exact .inl ⟨a, rfl⟩

end Attempt

open Attempt

/-- The texts that are read in the course of an expansion. -/
inductive MacroInvocation.Reads (lookup : Ident → Option MacroDefinition)
    (invocation : MacroInvocation) : List Char → Prop where
  | own : Reads lookup invocation invocation.source.toList
  | definition {d : MacroDefinition} (other : invocation.name ≠ LazyStatic.invocationName)
    (found : lookup invocation.name = some d) : Reads lookup invocation d.source.toList
  | arguments {text : List Char} (other : invocation.name ≠ LazyStatic.invocationName)
    (given : argumentText invocation.source.toList = .ok text) :
    Reads lookup invocation (Text.codeOf text)
  | copies {d : MacroDefinition} {text : List Char}
    (other : invocation.name ≠ LazyStatic.invocationName)
    (found : lookup invocation.name = some d) (made : (pasted d invocation).result = .ok text) :
    Reads lookup invocation (Text.codeOf text)
  | declaration {text : List Char} (static : invocation.name = LazyStatic.invocationName)
    (given : argumentText invocation.source.toList = .ok text) : Reads lookup invocation text
  | declared {text : List Char} (static : invocation.name = LazyStatic.invocationName)
    (made : LazyStatic.declared invocation.source = .ok text) :
    Reads lookup invocation (Text.codeOf text)

/-! ## Steps -/

theorem ScratchUnit.settled_parse (fileName : String) {text : List Char}
    (sound : Text.Sound (Text.codeOf text)) : (parse fileName text).result.Settled := by
  rw [result_parse]
  exact Settled.map (Grammar.parseFile_settles sound) _

theorem settled_argumentText {source : List Char} (sound : Text.Sound source) :
    (argumentText source).Settled :=
  (Settled.mapError (Grammar.parseCall_settles sound) _).bind fun _ _ => settled_ofOption _ _

theorem settled_shapeOf {d : MacroDefinition} (sound : Text.Sound d.source.toList) :
    (shapeOf d).Settled := by
  refine (Settled.mapError (RuleSet.parse_settles sound) _).bind fun rules _ => ?_
  split
  · exact settled_ok _
  · exact settled_fail _

theorem settled_parseArguments {text : List Char} (sound : Text.Sound (Text.codeOf text)) :
    (parseArguments text).result.Settled := by
  have quiet := (ScratchUnit.quiet_parse ScratchUnit.argumentsFile text).mapError Malformed.reparse
  unfold parseArguments
  rw [quiet.result_bind fun _ => Eventful.quiet_pure _]
  exact (Settled.mapError (ScratchUnit.settled_parse _ sound) _).bind fun _ _ => settled_ok _

theorem settled_argumentsOf {invocation : MacroInvocation}
    (own : Text.Sound invocation.source.toList)
    (arguments : ∀ text, argumentText invocation.source.toList = .ok text →
      Text.Sound (Text.codeOf text)) : (argumentsOf invocation).result.Settled := by
  have quiet (text : List Char) : (parseArguments text).Quiet :=
    ((ScratchUnit.quiet_parse _ text).mapError _).bind fun _ => Eventful.quiet_pure _
  have read : Settled (Eventful.ofAttempt (argumentText invocation.source.toList) >>=
      parseArguments).result := by
    rw [(Eventful.quiet_ofAttempt _).result_bind quiet]
    exact (settled_argumentText own).bind fun text given =>
      settled_parseArguments (arguments text given)
  exact read.mapError ExpandError.argumentParseFailed

/-- Making the copies of a template reads the invocation, its arguments and the definition. -/
theorem settled_pasted {d : MacroDefinition} {invocation : MacroInvocation}
    (own : Text.Sound invocation.source.toList) (definition : Text.Sound d.source.toList)
    (arguments : ∀ text, argumentText invocation.source.toList = .ok text →
      Text.Sound (Text.codeOf text)) : (pasted d invocation).result.Settled := by
  unfold pasted
  rw [(Eventful.quiet_ofAttempt _).result_bind fun _ =>
    (quiet_argumentsOf invocation).bind fun _ =>
      (Eventful.quiet_ofAttempt _).bind fun _ => Eventful.quiet_ofAttempt _]
  refine (settled_shapeOf definition).bind fun shape _ => ?_
  rw [(quiet_argumentsOf invocation).result_bind fun _ =>
    (Eventful.quiet_ofAttempt _).bind fun _ => Eventful.quiet_ofAttempt _]
  refine (settled_argumentsOf own arguments).bind fun fragments _ => ?_
  rw [(Eventful.quiet_ofAttempt _).result_bind fun _ => Eventful.quiet_ofAttempt _]
  refine (settled_ofOption _ _).bind fun template _ => ?_
  rw [Eventful.result_ofAttempt]
  split
  · exact settled_fail _
  · exact settled_ok _

theorem settled_bindAll (elements : List Element) (context : InvocationContext) :
    (bindAll elements context).Settled :=
  settled_ofOption _ _

theorem settled_resynthesize {text : List Char} (sound : Text.Sound (Text.codeOf text))
    (invocation : Span) : (resynthesize text invocation).result.Settled := by
  rw [result_resynthesize_eq]
  refine Settled.bind (Settled.mapError (ScratchUnit.settled_parse _ sound) _) fun u _ => ?_
  unfold someElements
  split
  · exact settled_fail _
  · exact settled_ok _

/-- A declaration is either refused, or its `ref` is cut out of it. -/
theorem LazyStatic.settled_declaration {arguments : List Char} (sound : Text.Sound arguments) :
    (declaration arguments).Settled := by
  refine (Settled.mapError (Grammar.lazyStatic_settles sound) _).bind fun mark accepted => ?_
  obtain ⟨before, after, -, cut⟩ := cutOut_of_accepted (of_mapError_ok accepted)
  rw [cut]
  exact settled_ok _

/-- The declaration of a static is read among the arguments, and again without its `ref`. -/
theorem LazyStatic.settled_element {invocation : MacroInvocation}
    (own : Text.Sound invocation.source.toList)
    (declaration : ∀ text, argumentText invocation.source.toList = .ok text → Text.Sound text)
    (again : ∀ text, declared invocation.source = .ok text → Text.Sound (Text.codeOf text)) :
    (element invocation).result.Settled := by
  rw [result_element_eq]
  refine Settled.bind (Settled.mapError ?_ _) fun text made => ?_
  · exact (settled_argumentText own).bind fun text given =>
      settled_declaration (declaration text given)
  · exact (Settled.mapError (ScratchUnit.settled_parse _ (again text made)) _).bind
      fun _ _ => settled_ofOption _ _

/-! ## Whole requests -/

theorem settled_expandMacro {lookup : Ident → Option MacroDefinition}
    {invocation : MacroInvocation}
    (sound : ∀ text, invocation.Reads lookup text → Text.Sound text) :
    (expandMacro lookup invocation).result.Settled := by
  have own := sound _ .own
  by_cases named : invocation.name = LazyStatic.invocationName
  · rw [expandMacro_of_static named, result_expandStatic]
    refine (LazyStatic.settled_element own (fun text given => sound _ (.declaration named given))
      fun text made => sound _ (.declared named made)).bind fun element _ => ?_
    exact (settled_bindAll [element] invocation.context).map _
  · rw [result_expandMacro_of_definition named]
    cases found : lookup invocation.name with
    | none => exact settled_fail _
    | some d =>
      rw [result_expandBy, result_expandWith_eq]
      -- the text of the copies is read only once it has been made, so it is asked about last
      have copies := settled_pasted own (sound _ (.definition named found))
        fun text given => sound _ (.arguments named given)
      refine Settled.map (copies.bind fun text made => ?_) _
      exact (settled_resynthesize (sound _ (.copies named found made)) invocation.span).bind
        fun elements _ => settled_bindAll elements invocation.context

/-- Where an invocation does not expand, it stays as it is. -/
theorem result_expandOrNone_of_fail {lookup : Ident → Option MacroDefinition}
    {invocation : MacroInvocation} {cause : ExpandError}
    (failed : (expandMacro lookup invocation).result = fail cause) :
    (expandOrNone lookup invocation).result = .ok none := by
  unfold Eventful.result Eventful.outcome at failed ⊢
  unfold expandOrNone
  rw [ExceptT.run_mk, StateT.run_bind]
  cases ran : (expandMacro lookup invocation).run.run [] with
  | mk ended events =>
    rw [ran] at failed
    cases failed
    rfl

theorem result_expandOrNone_of_ok {lookup : Ident → Option MacroDefinition}
    {invocation : MacroInvocation} {e : Expansion}
    (given : (expandMacro lookup invocation).result = .ok e) :
    (expandOrNone lookup invocation).result = .ok (some e.results) := by
  unfold Eventful.result Eventful.outcome at given ⊢
  unfold expandOrNone
  rw [ExceptT.run_mk, StateT.run_bind]
  cases ran : (expandMacro lookup invocation).run.run [] with
  | mk ended events =>
    rw [ran] at given
    cases given
    rfl

theorem ne_nil_of_expandMacro {lookup : Ident → Option MacroDefinition}
    {invocation : MacroInvocation} {e : Expansion}
    (given : (expandMacro lookup invocation).result = .ok e) : e.results ≠ [] := by
  by_cases named : invocation.name = LazyStatic.invocationName
  · have single := (expansion_of_static named given).2
    rw [← List.length_pos_iff]
    omega
  · exact (expansion_of_definition named given).2

theorem expansion_of_sound {lookup : Ident → Option MacroDefinition} {invocation : MacroInvocation}
    (sound : ∀ text, invocation.Reads lookup text → Text.Sound text) :
    (∃ e, (expandMacro lookup invocation).result = .ok e ∧ e.results ≠ [] ∧
      (expandOrNone lookup invocation).result = .ok (some e.results)) ∨
    (∃ cause, (expandMacro lookup invocation).result = fail cause ∧
      (expandOrNone lookup invocation).result = .ok none) := by
  rcases (settled_expandMacro sound).cases with ⟨e, given⟩ | ⟨cause, failed⟩
  · exact .inl ⟨e, given, ne_nil_of_expandMacro given, result_expandOrNone_of_ok given⟩
  · exact .inr ⟨cause, failed, result_expandOrNone_of_fail failed⟩

theorem SourceTree.parse_of_sound (file : String) {source : List Char}
    (sound : Text.Sound (Text.codeOf source)) :
    (∃ t, parse file source = .ok t) ∨ ∃ cause, parse file source = fail (.unparsed cause) := by
  have settled : (parse file source).Settled :=
    (Settled.mapError (Grammar.parseFile_settles sound) _).bind fun _ _ => settled_ok _
  rcases settled.cases with read | ⟨⟨cause⟩, failed⟩
  · exact .inl read
  · exact .inr ⟨cause, failed⟩

/-- If all texts that are read for an invocation are sound, it expands to some results or there is
an error, for which it stays as it is. If the code of a file is sound, the file has a tree or there
is an error. -/
theorem sound_requests_settle {lookup : Ident → Option MacroDefinition}
    {invocation : MacroInvocation} {source : List Char}
    (expanded : ∀ text, invocation.Reads lookup text → Text.Sound text)
    (scanned : Text.Sound (Text.codeOf source)) (file : String) :
    ((∃ e, (expandMacro lookup invocation).result = .ok e ∧ e.results ≠ [] ∧
      (expandOrNone lookup invocation).result = .ok (some e.results)) ∨
    (∃ cause, (expandMacro lookup invocation).result = fail cause ∧
      (expandOrNone lookup invocation).result = .ok none)) ∧
    ((∃ t, SourceTree.parse file source = .ok t) ∨
      ∃ cause, SourceTree.parse file source = fail (.unparsed cause)) :=
  ⟨expansion_of_sound expanded, SourceTree.parse_of_sound file scanned⟩

/-- A file with a definition, and an invocation of it with one argument. -/
theorem sound_requests_settle_copied :
    let code := "macro_rules! m \x7b ($($i:item)*) => ($(#[x] $i)*) \x7d"
    let d : MacroDefinition := ⟨⟨"m"⟩, code, .fake⟩
    let invocation : MacroInvocation := ⟨⟨"m"⟩, "m! \x7b struct A; \x7d", .fake, .module ⟨0⟩⟩
    let lookup : Ident → Option MacroDefinition := fun _ => some d
    (∀ text, invocation.Reads lookup text → Text.Sound text) ∧
      Text.Sound (Text.codeOf code.toList) ∧
      ((∃ e, (expandMacro lookup invocation).result = .ok e ∧ e.results ≠ [] ∧
        (expandOrNone lookup invocation).result = .ok (some e.results)) ∨
      (∃ cause, (expandMacro lookup invocation).result = fail cause ∧
        (expandOrNone lookup invocation).result = .ok none)) ∧
      ((∃ t, SourceTree.parse "lib.rs" code.toList = .ok t) ∨
        ∃ cause, SourceTree.parse "lib.rs" code.toList = fail (.unparsed cause)) := by
  intro code d invocation lookup
  have sound : ∀ text, invocation.Reads lookup text → Text.Sound text := by
    intro text reads
    cases reads with
    | own => decide +kernel
    | definition _ found =>
      cases found
      decide +kernel
    | arguments _ given =>
      have whole : argumentText invocation.source.toList = .ok " struct A; ".toList := by
        decide +kernel
      cases whole.symm.trans given
      decide +kernel
    | copies _ found made =>
      cases found
      have whole : (pasted d invocation).result = .ok "#[x] struct A;".toList := by
        decide +kernel
      cases whole.symm.trans made
      decide +kernel
    | declaration static => exact absurd static (by decide)
    | declared static => exact absurd static (by decide)
  have scanned : Text.Sound (Text.codeOf code.toList) := by decide +kernel
  exact ⟨sound, scanned, sound_requests_settle sound scanned "lib.rs"⟩

/-- A literal without a value among the arguments breaks the expansion off. -/
theorem unvalued_argument_breaks_off :
    let d : MacroDefinition := ⟨⟨"m"⟩, "macro_rules! m \x7b ($($i:item)*) => ($($i)*) \x7d", .fake⟩
    let invocation : MacroInvocation :=
      ⟨⟨"m"⟩, "m! \x7b const A: u8 = c\"x\"; \x7d", .fake, .module ⟨0⟩⟩
    (expandMacro (fun _ => some d) invocation).result = .error .aborted := by
  decide +kernel

end MacroExpansion
