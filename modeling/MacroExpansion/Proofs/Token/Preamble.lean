import MacroExpansion.Proofs.Token.Join

/-!
# Preambles of texts that go on

A `#!` that opens an attribute is told by what stands next to it. So a text that has no interpreter
line has none if a line break and more follow it.
-/
namespace MacroExpansion.Text

open Token

variable {cs rest post : List Char}

theorem dropByteOrderMark_append (nonempty : cs ≠ []) (post : List Char) :
    dropByteOrderMark (cs ++ post) = dropByteOrderMark cs ++ post := by
  cases cs with
  | nil => exact absurd rfl nonempty
  | cons c cs =>
    rw [List.cons_append, dropByteOrderMark, dropByteOrderMark]
    split <;> rfl

/-- A text that loses nothing to its interpreter line has none. -/
theorem opens_of_dropInterpreterLine {skip : List Char → List Char}
    (kept : dropInterpreterLine skip ('#' :: '!' :: rest) = '#' :: '!' :: rest) :
    (skip rest).head? = some '[' := by
  rw [dropInterpreterLine] at kept
  split at kept
  next opens => exact opens
  next =>
    have short : (fromLineBreak rest).length ≤ rest.length := (List.dropWhile_suffix _).length_le
    have long : (fromLineBreak ('#' :: '!' :: rest)).length = rest.length + 2 := by rw [kept]; rfl
    have passed : fromLineBreak ('#' :: '!' :: rest) = fromLineBreak rest := rfl
    rw [passed] at long
    omega

/-- Without an interpreter line there is none in front of a line break. -/
theorem dropInterpreterLine_line {skip : List Char → List Char}
    (keeps : ∀ rest, (skip rest).head? = some '[' → (skip (rest ++ '\n' :: post)).head? = some '[')
    (kept : dropInterpreterLine skip cs = cs) :
    dropInterpreterLine skip (cs ++ '\n' :: post) = cs ++ '\n' :: post := by
  unfold dropInterpreterLine
  split
  next rest whole =>
    rw [if_pos]
    match cs, whole with
    | c :: d :: rest, whole =>
      cases whole
      exact keeps rest (opens_of_dropInterpreterLine kept)
  next => rfl

/-! ## What may stand in front of an attribute's bracket -/

theorem skipSeparators_bracket (opens : (skipSeparators cs).head? = some '[') (post : List Char) :
    (skipSeparators (cs ++ '\n' :: post)).head? = some '[' := by
  rw [skipSeparators_line]
  cases left : skipSeparators cs with
  | nil =>
    rw [left] at opens
    cases opens
  | cons c rest =>
    rw [left] at opens
    cases opens
    rw [List.cons_append, skipSeparators_of_none rfl]
    rfl

theorem afterCommentEnd?_append (ends : afterCommentEnd? cs = some rest) (post : List Char) :
    afterCommentEnd? (cs ++ post) = some (rest ++ post) := by
  fun_induction afterCommentEnd? cs with
  | case1 => cases ends
  | case2 cs =>
    cases ends
    rfl
  | case3 c cs other ih =>
    rw [List.cons_append, afterCommentEnd?, ih ends]
    intro more star same
    cases cs with
    | nil => cases ends
    | cons d cs =>
      cases same
      exact other cs star rfl

theorem triviaStep?_line (step : triviaStep? cs = some rest) (post : List Char) :
    triviaStep? (cs ++ '\n' :: post) = some (rest ++ '\n' :: post) := by
  have unmarked : Unmarked ('\n' :: post) := .cons (by decide) post
  unfold triviaStep? at step ⊢
  rw [startsLineComment_unmarked unmarked, startsBlockComment_unmarked unmarked]
  split at step
  next line =>
    cases step
    rw [if_pos line, fromLineBreak_line]
  next line =>
    rw [if_neg line]
    split at step
    next block =>
      obtain ⟨more, rfl⟩ := opened_of_startsBlockComment block
      rw [if_pos block]
      exact afterCommentEnd?_append step _
    next => cases step

theorem trimStart_append (nonempty : trimStart cs ≠ []) (post : List Char) :
    trimStart (cs ++ post) = trimStart cs ++ post := by
  unfold trimStart at nonempty ⊢
  rw [List.dropWhile_append, if_neg (by simpa using nonempty)]

theorem skipTriviaWithin_bracket {n m : Nat} (le : n ≤ m)
    (opens : (skipTriviaWithin n cs).head? = some '[') (post : List Char) :
    (skipTriviaWithin m (cs ++ '\n' :: post)).head? = some '[' := by
  -- once a bracket stands in front nothing more is passed over
  have stays {cs : List Char} (opens : (trimStart cs).head? = some '[') (m : Nat) :
      (skipTriviaWithin m (cs ++ '\n' :: post)).head? = some '[' := by
    cases left : trimStart cs with
    | nil =>
      rw [left] at opens
      cases opens
    | cons c rest =>
      rw [left] at opens
      cases opens
      have nonempty : trimStart cs ≠ [] := by
        rw [left]
        exact List.cons_ne_nil _ _
      have whole := trimStart_append nonempty
      cases m with
      | zero => rw [skipTriviaWithin, whole, left]; rfl
      | succ m =>
        rw [skipTriviaWithin, whole, left]
        rfl
  induction n generalizing m cs with
  | zero => exact stays opens m
  | succ n ih =>
    rw [skipTriviaWithin] at opens
    split at opens
    next rest step =>
      obtain ⟨m, rfl⟩ : ∃ k, m = k + 1 := ⟨m - 1, by omega⟩
      have nonempty : trimStart cs ≠ [] := by
        intro empty
        rw [empty] at step
        cases step
      rw [skipTriviaWithin, trimStart_append nonempty, triviaStep?_line step]
      exact ih (by omega) opens
    next => exact stays opens m

theorem skipTrivia_bracket (opens : (skipTrivia cs).head? = some '[') (post : List Char) :
    (skipTrivia (cs ++ '\n' :: post)).head? = some '[' :=
  skipTriviaWithin_bracket (by simp) opens post

/-! ## Where the two rules agree -/

theorem length_lt_of_afterCommentEnd? (ends : afterCommentEnd? cs = some rest) :
    rest.length < cs.length := by
  fun_induction afterCommentEnd? cs with
  | case1 => cases ends
  | case2 cs =>
    cases ends
    simp only [List.length_cons]
    omega
  | case3 c cs other ih => exact Nat.lt_succ_of_lt (ih ends)

theorem length_lt_of_triviaStep? (step : triviaStep? cs = some rest) : rest.length < cs.length := by
  unfold triviaStep? at step
  split at step
  next line =>
    cases step
    exact (takes_fromLineBreak line).length_lt
  next =>
    split at step
    next block =>
      have short := length_lt_of_afterCommentEnd? step
      rw [List.length_drop] at short
      omega
    next => cases step

/-- The steps past blanks and comments are as many as it takes. -/
theorem skipTriviaWithin_eq {n : Nat} (enough : cs.length ≤ n) :
    skipTriviaWithin n cs = skipTrivia cs := by
  have same (n : Nat) : ∀ (m : Nat) (cs : List Char), cs.length ≤ n → cs.length ≤ m →
      skipTriviaWithin n cs = skipTriviaWithin m cs := by
    induction n with
    | zero =>
      intro m cs empty _
      obtain rfl : cs = [] := List.length_eq_zero_iff.mp (Nat.le_zero.mp empty)
      cases m <;> rfl
    | succ n ih =>
      intro m cs enough enough'
      have trimmed := length_trimStart_le cs
      cases step : triviaStep? (trimStart cs) with
      | none => cases m <;> simp [skipTriviaWithin, step]
      | some rest =>
        have short := length_lt_of_triviaStep? step
        obtain ⟨m, rfl⟩ : ∃ k, m = k + 1 := ⟨m - 1, by omega⟩
        simp only [skipTriviaWithin, step]
        exact ih m rest (by omega) (by omega)
  exact same n cs.length cs enough (Nat.le_refl _)

theorem skipTrivia_blank {c : Char} (blank : isBlank c) (cs : List Char) :
    skipTrivia (c :: cs) = skipTrivia cs := by
  have trimmed : trimStart (c :: cs) = trimStart cs := by simp [trimStart, blank]
  rw [← skipTriviaWithin_eq (Nat.le_succ cs.length), skipTrivia, List.length_cons, skipTriviaWithin,
    skipTriviaWithin, trimmed]

theorem skipTrivia_of_some (solid : trimStart cs = cs) (step : triviaStep? cs = some rest) :
    skipTrivia cs = skipTrivia rest := by
  have short := length_lt_of_triviaStep? step
  obtain ⟨n, long⟩ : ∃ n, cs.length = n + 1 := ⟨cs.length - 1, by omega⟩
  rw [skipTrivia, long, skipTriviaWithin, solid, step]
  exact skipTriviaWithin_eq (by omega)

theorem skipTrivia_of_none (solid : trimStart cs = cs) (nothing : triviaStep? cs = none) :
    skipTrivia cs = cs := by
  have stays (n : Nat) : skipTriviaWithin n cs = cs := by
    cases n <;> simp [skipTriviaWithin, solid, nothing]
  exact stays _

/-- The inside of a block comment that the end of it is the first mark of a comment in. -/
def Flat (body : List Char) : Prop :=
  ¬ ['/', '*'] <:+: body ++ ['*'] ∧ ¬ ['*', '/'] <:+: body

instance (body : List Char) : Decidable (Flat body) :=
  inferInstanceAs (Decidable (_ ∧ _))

theorem Flat.tail {c : Char} {body : List Char} (flat : Flat (c :: body)) : Flat body :=
  ⟨fun opens => flat.1 (opens.trans (List.suffix_cons c _).isInfix),
    fun closes => flat.2 (closes.trans (List.suffix_cons c _).isInfix)⟩

theorem Flat.afterCommentEnd? {body : List Char} (flat : Flat body) (cs : List Char) :
    Text.afterCommentEnd? (body ++ '*' :: '/' :: cs) = some cs := by
  induction body with
  | nil => rfl
  | cons c body ih =>
    rw [List.cons_append, Text.afterCommentEnd?, ih flat.tail]
    intro more star same
    cases body with
    | nil => cases same
    | cons d body =>
      cases same
      cases star
      exact flat.2 (List.prefix_append ['*', '/'] body).isInfix

theorem Flat.afterNestedComment? {body : List Char} (flat : Flat body) (cs : List Char) :
    Text.afterNestedComment? 1 (body ++ '*' :: '/' :: cs) = some cs := by
  induction body with
  | nil => simp [Text.afterNestedComment?]
  | cons c body ih =>
    rw [List.cons_append, Text.afterNestedComment?, ih flat.tail]
    · intro more slash same
      cases slash
      cases body with
      | nil => exact flat.1 (List.infix_refl _)
      | cons d body =>
        cases same
        exact flat.1 (List.prefix_append ['/', '*'] (body ++ ['*'])).isInfix
    · intro more star same
      cases star
      cases body with
      | nil => cases same
      | cons d body =>
        cases same
        exact flat.2 (List.prefix_append ['*', '/'] body).isInfix

/-- A text ahead of whose first token both rules pass over the same blanks and comments. -/
inductive Plain : List Char → Prop where
  /-- What neither rule passes over: a token, a doc comment, a comment that is never closed, or the
  end of the text. -/
  | stop {cs : List Char} (scanned : separatorStep? cs = none) (cut : triviaStep? cs = none) :
      Plain cs
  | blank {c : Char} {cs : List Char} (blank : isBlank c) (later : Plain cs) : Plain (c :: cs)
  | line {cs : List Char} (starts : startsLineComment cs) (later : Plain (fromLineBreak cs)) :
      Plain cs
  /-- A block comment that is no doc comment, is not empty and holds no other comment. -/
  | block {body cs : List Char} (flat : Flat body)
      (starts : startsBlockComment ('/' :: '*' :: (body ++ '*' :: '/' :: cs))) (later : Plain cs) :
      Plain ('/' :: '*' :: (body ++ '*' :: '/' :: cs))

theorem separatorStep?_separator {c : Char} (separates : isSeparator c) (cs : List Char) :
    separatorStep? (c :: cs) = some cs := by
  have other : c ≠ '/' := by
    rintro rfl
    cases separates
  have line : ¬ startsLineComment (c :: cs) := fun line => by
    unfold startsLineComment at line
    split at line <;> simp_all
  rw [separatorStep?_eq, if_neg line]
  simp [List.isPrefixOf, separates, other.symm]

/-- Ahead of such a text the rules agree. -/
theorem Plain.skipTrivia_eq (h : Plain cs) : skipTrivia cs = skipSeparators cs := by
  have solid {c : Char} {cs : List Char} (other : ¬ isBlank c) : trimStart (c :: cs) = c :: cs := by
    simp [trimStart, other]
  induction h with
  | @stop cs scanned cut =>
    have whole : trimStart cs = cs := by
      cases cs with
      | nil => rfl
      | cons c cs =>
        refine solid fun blank => ?_
        rw [separatorStep?_separator (isSeparator_of_isBlank c blank)] at scanned
        cases scanned
    rw [skipTrivia_of_none whole cut, skipSeparators_of_none scanned]
  | @blank c cs blank _ ih =>
    rw [skipTrivia_blank blank, ih,
      skipSeparators_of_some (separatorStep?_separator (isSeparator_of_isBlank c blank) cs)]
  | @line cs starts _ ih =>
    have whole : trimStart cs = cs := by
      cases cs with
      | nil => rfl
      | cons c cs =>
        refine solid fun blank => ?_
        unfold startsLineComment at starts
        split at starts <;> simp_all [isBlank]
    have scanned : separatorStep? cs = some (fromLineBreak cs) := if_pos starts
    have cut : triviaStep? cs = some (fromLineBreak cs) := if_pos starts
    rw [skipTrivia_of_some whole cut, skipSeparators_of_some scanned, ih]
  | @block body cs flat starts _ ih =>
    have line : startsLineComment ('/' :: '*' :: (body ++ '*' :: '/' :: cs)) = false := rfl
    have cut : triviaStep? ('/' :: '*' :: (body ++ '*' :: '/' :: cs)) = some cs := by
      rw [triviaStep?, line, starts]
      exact flat.afterCommentEnd? cs
    have closed : ['/', '*', '*', '/'].isPrefixOf ('/' :: '*' :: (body ++ '*' :: '/' :: cs)) =
        false := by
      refine isPrefixOf_absent fun more same => ?_
      rw [same] at starts
      cases starts
    have scanned : separatorStep? ('/' :: '*' :: (body ++ '*' :: '/' :: cs)) = some cs := by
      rw [separatorStep?_eq, line, closed, starts]
      exact flat.afterNestedComment? cs
    rw [skipTrivia_of_some (solid (by decide)) cut, skipSeparators_of_some scanned, ih]

/-- Two rules leave the same text if both tell a `#!` the same way, and only then. -/
theorem dropInterpreterLine_eq_iff {skip skip' : List Char → List Char} :
    dropInterpreterLine skip cs = dropInterpreterLine skip' cs ↔
      ∀ rest, cs = '#' :: '!' :: rest →
        ((skip rest).head? = some '[' ↔ (skip' rest).head? = some '[') := by
  constructor
  · rintro same rest rfl
    constructor
    · intro opens
      refine opens_of_dropInterpreterLine (same.symm.trans ?_)
      exact if_pos opens
    · intro opens
      refine opens_of_dropInterpreterLine (same.trans ?_)
      exact if_pos opens
  · intro alike
    unfold dropInterpreterLine
    split
    next rest =>
      split
      next opens => rw [if_pos ((alike rest rfl).mp opens)]
      next other => rw [if_neg fun opens => other ((alike rest rfl).mpr opens)]
    next => rfl

/-- Both rules find an attribute behind the `#!` of a text, or neither does. -/
def OpensAlike (cs : List Char) : Prop :=
  ∀ rest, dropByteOrderMark cs = '#' :: '!' :: rest →
    ((skipTrivia rest).head? = some '[' ↔ (skipSeparators rest).head? = some '[')

/-- The text that positions are cut from is the one that is scanned just where both rules tell a
`#!` the same way. -/
theorem stripPreamble_eq_codeOf_iff : stripPreamble cs = codeOf cs ↔ OpensAlike cs :=
  dropInterpreterLine_eq_iff

/-- They do if they pass over the same behind it. -/
theorem OpensAlike.of_plain
    (plain : ∀ rest, dropByteOrderMark cs = '#' :: '!' :: rest → Plain rest) : OpensAlike cs :=
  fun rest whole => by rw [(plain rest whole).skipTrivia_eq]

/-! ## Code -/

/-- A text has no interpreter line, by neither of the rules that tell. -/
structure Unled (cs : List Char) : Prop where
  scanned : codeOf cs = dropByteOrderMark cs
  cut : stripPreamble cs = dropByteOrderMark cs

/-- More text after a line break opens no interpreter line. -/
theorem Unled.append (h : Unled cs) (nonempty : cs ≠ []) (post : List Char) :
    Unled (cs ++ '\n' :: post) where
  scanned := by
    rw [codeOf, dropByteOrderMark_append nonempty]
    exact dropInterpreterLine_line (fun _ opens => skipSeparators_bracket opens post) h.scanned
  cut := by
    rw [stripPreamble, dropByteOrderMark_append nonempty]
    exact dropInterpreterLine_line (fun _ opens => skipTrivia_bracket opens post) h.cut

end MacroExpansion.Text
