import MacroExpansion.Proofs.Definition.Piece
import MacroExpansion.Proofs.Grammar.Progress

/-!
# What stands in a supported definition

A definition is a group of cases, a case has its template in a group, and a supported template has
one repetition, which is not empty. Main statement: the parentheses that the shape of a definition
tells are among the token trees of its text, and have the pieces of that repetition in them.
-/
namespace MacroExpansion

namespace Piece

variable {μ : Type}

/-- The repetitions of a sequence are among its pieces. -/
theorem mem_of_repetitions {pieces : List (Piece μ)} {found : List (Repetition μ)}
    (h : repetitions pieces = .ok found) {r : Repetition μ} (member : r ∈ found) :
    .repetition r.content r.parentheses ∈ pieces := by
  induction pieces generalizing found with
  | nil =>
    cases h
    cases member
  | cons p pieces ih =>
    cases p with
    | repetition content parentheses =>
      obtain ⟨later, others, same⟩ := Attempt.of_bind_ok h
      cases same
      rcases List.mem_cons.mp member with rfl | member
      · exact List.mem_cons_self
      · exact List.mem_cons_of_mem _ (ih others member)
    | group content =>
      rw [repetitions] at h
      split at h
      · cases h
      · exact List.mem_cons_of_mem _ (ih h member)
    | _ => exact List.mem_cons_of_mem _ (ih h member)

end Piece

namespace RuleSet

theorem readCases_of_ofCall {named : Grammar.NamedCall} {rules : RuleSet}
    (defined : ofCall named = .ok rules) : readCases named.call.body = .ok rules.cases := by
  cases defining : named.call.path.isWord MacroPath.definer with
  | false =>
    rw [ofCall, defining] at defined
    cases defined
  | true =>
    rw [ofCall, defining] at defined
    cases spelled : named.name with
    | none =>
      rw [spelled] at defined
      cases defined
    | some spelling =>
      rw [spelled] at defined
      obtain ⟨cases, read, same⟩ := Attempt.of_bind_ok defined
      cases same
      exact read

/-- The cases of a definition stand in a group of its text. -/
theorem group_of_parse {source : List Char} {rules : RuleSet}
    (parsed : parse source = .ok rules) :
    ∃ tokens d body extent, TokenTree.ofText? source = some tokens ∧
      .group d body extent ∈ tokens ∧ readCases body = .ok rules.cases := by
  obtain ⟨tokens, scanned, read⟩ := Grammar.of_parseText parsed
  obtain ⟨after, read, _⟩ := Grammar.of_parseAll read
  obtain ⟨_, past, attributes, read⟩ := Grammar.of_bind read
  obtain ⟨named, _, called, given⟩ := Grammar.of_bind read
  have among := (Grammar.Advances.outerAttributes _ _ _ attributes).subset
    (Grammar.mem_of_callItem called)
  refine ⟨tokens, _, _, _, scanned, among, ?_⟩
  cases defined : ofCall named with
  | error cause =>
    rw [defined] at given
    cases given
  | ok found =>
    rw [defined] at given
    cases given
    exact readCases_of_ofCall defined

/-- A case has its template in a group, and the other cases stand behind it. -/
theorem of_readCases {body : List TokenTree} {c : RuleCase} {later : List RuleCase}
    (read : readCases body = .ok (c :: later)) :
    ∃ d right extent rest, .group d right extent ∈ body ∧
      Piece.ofTokens .template right = .ok c.template ∧ rest <:+ body ∧
      readCases rest = .ok later := by
  unfold readCases at read
  split at read
  next => cases read
  next d left extent rest =>
    obtain ⟨pattern, _, read⟩ := Attempt.of_bind_ok read
    split at read
    next d right extent _ _ =>
      obtain ⟨template, made, read⟩ := Attempt.of_bind_ok read
      split at read
      next =>
        obtain ⟨others, read, same⟩ := Attempt.of_bind_ok read
        cases same
        exact ⟨d, right, extent, _, by simp, made, ⟨[_, _, _, _, _], rfl⟩, read⟩
      next =>
        obtain ⟨others, read, same⟩ := Attempt.of_bind_ok read
        cases same
        exact ⟨d, right, extent, _, by simp, made, ⟨[_, _, _, _], rfl⟩, read⟩
    next => cases read
  next => cases read

theorem group_of_readCases {body : List TokenTree} {cases : List RuleCase}
    (read : readCases body = .ok cases) {c : RuleCase} (member : c ∈ cases) :
    ∃ d right extent, .group d right extent ∈ body ∧
      Piece.ofTokens .template right = .ok c.template := by
  induction cases generalizing body with
  | nil => cases member
  | cons first later ih =>
    obtain ⟨d, right, extent, rest, among, made, behind, read⟩ := of_readCases read
    rcases List.mem_cons.mp member with rfl | member
    · exact ⟨d, right, extent, among, made⟩
    · obtain ⟨d, right, extent, among, made⟩ := ih read member
      exact ⟨d, right, extent, behind.subset among, made⟩

end RuleSet

namespace SupportedShape

/-- A supported template has one repetition, which is not empty. -/
theorem of_parenthesesOf {template : Template} {parentheses : Extent}
    (h : parenthesesOf template = .ok parentheses) :
    ∃ r, Piece.repetitions template = .ok [r] ∧ r.content ≠ [] ∧ r.parentheses = parentheses := by
  obtain ⟨found, repeated, h⟩ := Attempt.of_bind_ok h
  split at h
  next r =>
    cases filled : r.content.isEmpty with
    | true =>
      rw [filled] at h
      cases h
    | false =>
      rw [filled] at h
      cases flat : Piece.anyRepetition r.content with
      | true =>
        rw [flat] at h
        cases h
      | false =>
        rw [flat] at h
        cases h
        exact ⟨r, repeated, by simpa using filled, rfl⟩
  next => cases h

theorem of_ofRules {rules : RuleSet} {shape : SupportedShape}
    (accepted : ofRules rules = .ok shape) :
    ∃ only r, rules.cases = [only] ∧ Piece.repetitions only.template = .ok [r] ∧ r.content ≠ [] ∧
      r.parentheses = shape.template := by
  unfold ofRules at accepted
  split at accepted
  next only single =>
    obtain ⟨binding, _, accepted⟩ := Attempt.of_bind_ok accepted
    obtain ⟨parentheses, found, same⟩ := Attempt.of_bind_ok accepted
    cases same
    obtain ⟨r, repeated, filled, place⟩ := of_parenthesesOf found
    exact ⟨only, r, single, repeated, filled, place⟩
  next => cases accepted

/-- The parentheses that the shape of a definition tells are among the trees of its text, and the
tokens in them have the pieces of the template's only repetition. -/
theorem within_of_ofRules {source : List Char} {rules : RuleSet} {shape : SupportedShape}
    (parsed : RuleSet.parse source = .ok rules) (accepted : ofRules rules = .ok shape) :
    ∃ tokens inside only r, TokenTree.ofText? source = some tokens ∧
      TokenTree.Within (.group .paren inside shape.template) tokens ∧
      Piece.ofTokens .template inside = .ok r.content ∧ rules.cases = [only] ∧
      Piece.repetitions only.template = .ok [r] ∧ r.content ≠ [] ∧
      r.parentheses = shape.template := by
  obtain ⟨tokens, _, body, _, scanned, defined, read⟩ := RuleSet.group_of_parse parsed
  obtain ⟨only, r, single, repeated, filled, place⟩ := of_ofRules accepted
  rw [single] at read
  obtain ⟨_, right, _, among, made⟩ :=
    RuleSet.group_of_readCases read (List.mem_singleton.mpr rfl)
  have member := Piece.mem_of_repetitions repeated (List.mem_singleton.mpr rfl)
  rcases Piece.of_mem_read made member with begun | ⟨inside, parenthesized, content⟩
  · cases begun
  · rw [place] at parenthesized
    exact ⟨tokens, inside, only, r, scanned, .deeper defined (.deeper among (.here parenthesized)),
      content, single, repeated, filled, place⟩

end SupportedShape

end MacroExpansion
