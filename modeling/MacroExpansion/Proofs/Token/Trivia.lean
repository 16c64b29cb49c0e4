import Mathlib.Data.List.DropRight
import MacroExpansion.Proofs.Token.Preamble

/-!
# What is passed over in front of a text

`Trivia rest passed` says that `passed`, in front of `rest`, consists of blanks, of line comments as
long as their line and of block comments up to the first `*/`, and that no comment of it is a doc
comment. `PassesTo` is the loop of `skipTrivia` without a bound on its steps. Main statement: from
every text the loop comes to an end, what it has passed over is trivia, and where it stops there is
no more of it.
-/
namespace MacroExpansion.Text

open Token

/-- A text starts with a doc comment. Its second character tells lines from blocks. -/
def OpensDoc (mark : Char) (cs : List Char) : Prop :=
  (['/', mark, mark] <+: cs ∧ ¬ ['/', mark, mark, mark] <+: cs) ∨ ['/', mark, '!'] <+: cs

/-- Blanks and comments in front of `rest`, none of them a doc comment. -/
inductive Trivia (rest : List Char) : List Char → Prop where
  | nothing : Trivia rest []
  | blank {c : Char} {later : List Char} (blank : isBlank c = true) (more : Trivia rest later) :
      Trivia rest (c :: later)
  /-- A line comment goes on to the end of its line. -/
  | line {body later : List Char} (plain : ¬ OpensDoc '/' ('/' :: '/' :: body))
      (unbroken : '\n' ∉ body) (ends : ∀ c ∈ (later ++ rest).head?, c = '\n')
      (more : Trivia rest later) : Trivia rest ('/' :: '/' :: body ++ later)
  /-- A block comment ends at the first `*/` behind its opening. -/
  | block {body later : List Char} (plain : ¬ OpensDoc '*' ('/' :: '*' :: body ++ ['*', '/']))
      (first : ¬ ['*', '/'] <:+: body ++ ['*']) (more : Trivia rest later) :
      Trivia rest ('/' :: '*' :: body ++ ['*', '/'] ++ later)

/-- The loop past blanks and comments, from a text to the rest at which it ends. -/
inductive PassesTo : List Char → List Char → Prop where
  | stop {cs : List Char} (ends : triviaStep? (trimStart cs) = none) : PassesTo cs (trimStart cs)
  | step {cs later rest : List Char} (comment : triviaStep? (trimStart cs) = some later)
      (more : PassesTo later rest) : PassesTo cs rest

variable {cs rest : List Char}

/-! ## Where comments start and end -/

theorem startsPlain_iff {mark : Char} (other : mark ≠ '!') (cs : List Char) :
    startsPlain mark cs = true ↔ ['/', mark] <+: cs ∧ ¬ OpensDoc mark cs := by
  -- each longer mark opens with the shorter ones, and no text goes on in two ways
  have two_of_four : ['/', mark, mark, mark] <+: cs → ['/', mark] <+: cs :=
    (List.prefix_append ['/', mark] [mark, mark]).trans
  have not_both : ['/', mark, mark, mark] <+: cs → ¬ ['/', mark, '!'] <+: cs := by
    rintro ⟨more, rfl⟩ ⟨rest, same⟩
    simp only [List.cons_append, List.cons.injEq] at same
    exact other same.2.2.1.symm
  simp only [startsPlain, OpensDoc, Bool.or_eq_true, Bool.and_eq_true, Bool.not_eq_true',
    ← Bool.not_eq_true, List.isPrefixOf_iff_prefix]
  tauto

theorem startsLineComment_iff (cs : List Char) :
    startsLineComment cs = true ↔ ['/', '/'] <+: cs ∧ ¬ OpensDoc '/' cs := by
  rw [startsLineComment_eq, startsPlain_iff (by decide)]

theorem startsBlockComment_iff (cs : List Char) :
    startsBlockComment cs = true ↔ ['/', '*'] <+: cs ∧ ¬ OpensDoc '*' cs := by
  rw [startsBlockComment_eq, startsPlain_iff (by decide)]

/-- A comment is cut at its first closing mark. -/
theorem body_of_afterCommentEnd? (ends : afterCommentEnd? cs = some rest) :
    ∃ body, cs = body ++ ['*', '/'] ++ rest ∧ ¬ ['*', '/'] <:+: body ++ ['*'] := by
  fun_induction afterCommentEnd? cs with
  | case1 => cases ends
  | case2 cs =>
    cases ends
    exact ⟨[], rfl, by decide⟩
  | case3 c cs other ih =>
    obtain ⟨body, rfl, first⟩ := ih ends
    refine ⟨c :: body, rfl, ?_⟩
    rw [List.cons_append, List.infix_cons_iff]
    rintro (⟨more, here⟩ | later)
    · cases body with
      | nil => simp at here
      | cons d body =>
        simp only [List.cons_append, List.cons.injEq] at here
        exact other _ here.1.symm (by rw [← here.2.1]; rfl)
    · exact first later

theorem afterCommentEnd?_eq_none_iff (cs : List Char) :
    afterCommentEnd? cs = none ↔ ¬ ['*', '/'] <:+: cs := by
  fun_induction afterCommentEnd? cs with
  | case1 => simp
  | case2 cs =>
    have here : ['*', '/'] <:+: '*' :: '/' :: cs := (List.prefix_append ['*', '/'] cs).isInfix
    simp [here]
  | case3 c cs other ih =>
    have elsewhere : ¬ ['*', '/'] <+: c :: cs := by
      rintro ⟨more, same⟩
      simp only [List.cons_append, List.cons.injEq] at same
      exact other more same.1.symm same.2.symm
    rw [ih, List.infix_cons_iff]
    simp [elsewhere]

/-- Nothing is passed over only in front of doc comments, of comments that are never closed, and
where no comment starts. -/
theorem triviaStep?_eq_none_iff (cs : List Char) :
    triviaStep? cs = none ↔
      (['/', '/'] <+: cs → OpensDoc '/' cs) ∧
      (['/', '*'] <+: cs → OpensDoc '*' cs ∨ ¬ ['*', '/'] <:+: cs.drop 2) := by
  unfold triviaStep?
  have one_kind : ['/', '/'] <+: cs → ¬ ['/', '*'] <+: cs := by
    rintro ⟨more, rfl⟩ ⟨rest, same⟩
    simp at same
  split
  next line =>
    rw [startsLineComment_iff] at line
    simp [line.1, line.2]
  next line =>
    rw [startsLineComment_iff] at line
    split
    next block =>
      rw [startsBlockComment_iff] at block
      rw [afterCommentEnd?_eq_none_iff]
      tauto
    next block =>
      rw [startsBlockComment_iff] at block
      rw [not_and_not_right] at line block
      exact iff_of_true rfl ⟨line, fun starts => Or.inl (block starts)⟩

/-! ## What a step passes over -/

/-- What is left of a text starts with what was not to be dropped. -/
theorem stops_dropWhile {drops : Char → Bool} {c : Char}
    (first : c ∈ (cs.dropWhile drops).head?) : drops c = false := by
  have stops := List.head?_dropWhile_not drops cs
  rw [Option.mem_def.mp first] at stops
  exact stops

/-- A comment up to the end of its line is a doc comment only if the text starts with one. -/
theorem OpensDoc.of_line (h : OpensDoc '/' (cs.takeWhile (· != '\n'))) : OpensDoc '/' cs := by
  have whole : cs.takeWhile (· != '\n') <+: cs := List.takeWhile_prefix _
  have slashes : ∀ c ∈ ['/', '/', '/', '/'], (c != '\n') = true := by
    intro c member
    rw [List.eq_of_mem_replicate (n := 4) member]
    rfl
  rcases h with ⟨three, four⟩ | inner
  · refine Or.inl ⟨three.trans whole, ?_⟩
    rintro ⟨more, rfl⟩
    apply four
    rw [List.takeWhile_append_of_pos slashes]
    exact List.prefix_append _ _
  · exact Or.inr (inner.trans whole)

/-- The same for a block comment, which is no shorter than the longest mark. -/
theorem OpensDoc.of_block {comment : List Char} (long : 4 ≤ comment.length)
    (h : OpensDoc '*' comment) (rest : List Char) : OpensDoc '*' (comment ++ rest) := by
  have whole : comment <+: comment ++ rest := List.prefix_append comment rest
  rcases h with ⟨three, four⟩ | inner
  · exact Or.inl ⟨three.trans whole, fun more =>
      four (List.prefix_of_prefix_length_le more whole long)⟩
  · exact Or.inr (inner.trans whole)

theorem Trivia.blanks {later : List Char} (h : Trivia rest later) {blanks : List Char}
    (blank : ∀ c ∈ blanks, isBlank c = true) : Trivia rest (blanks ++ later) := by
  induction blanks with
  | nil => exact h
  | cons c blanks ih =>
    exact .blank (blank c List.mem_cons_self) (ih fun d member =>
      blank d (List.mem_cons_of_mem c member))

/-- One comment is passed over at a time. -/
theorem Trivia.comment {later passed : List Char} (h : Trivia rest passed)
    (step : triviaStep? cs = some later) (parts : later = passed ++ rest) :
    ∃ taken, cs = taken ++ rest ∧ Trivia rest taken := by
  unfold triviaStep? at step
  split at step
  next line =>
    obtain ⟨⟨more, rfl⟩, plain⟩ := (startsLineComment_iff cs).mp line
    have behind : more.dropWhile (· != '\n') = passed ++ rest := by
      rw [← parts]
      exact Option.some.inj step
    refine ⟨'/' :: '/' :: more.takeWhile (· != '\n') ++ passed, ?_,
      .line (fun doc => plain (.of_line doc)) ?_ ?_ h⟩
    · rw [List.append_assoc, ← behind]
      simp
    · intro broken
      simpa using List.mem_takeWhile_imp broken
    · rw [← behind]
      intro c first
      simpa using stops_dropWhile first
  next =>
    split at step
    next block =>
      obtain ⟨⟨more, rfl⟩, plain⟩ := (startsBlockComment_iff cs).mp block
      obtain ⟨body, closed, first⟩ := body_of_afterCommentEnd? step
      obtain rfl : more = body ++ ['*', '/'] ++ later := closed
      have whole : ['/', '*'] ++ (body ++ ['*', '/'] ++ later) =
          '/' :: '*' :: body ++ ['*', '/'] ++ later := by simp
      refine ⟨'/' :: '*' :: body ++ ['*', '/'] ++ passed, ?_, .block (fun doc => plain ?_) first h⟩
      · rw [whole, parts]
        simp
      · rw [whole]
        exact doc.of_block (by simp) later
    next => cases step

/-! ## The whole loop -/

theorem trimStart_trimStart (cs : List Char) : trimStart (trimStart cs) = trimStart cs :=
  List.dropWhile_idempotent isBlank cs

/-- With as many steps as a text is long, the loop comes to its end. -/
theorem passesTo_skipTriviaWithin {n : Nat} (enough : cs.length ≤ n) :
    PassesTo cs (skipTriviaWithin n cs) := by
  induction n generalizing cs with
  | zero =>
    obtain rfl : cs = [] := List.length_eq_zero_iff.mp (Nat.le_zero.mp enough)
    exact .stop rfl
  | succ n ih =>
    rw [skipTriviaWithin]
    split
    next later comment =>
      have shorter := length_lt_of_triviaStep? comment
      have trimmed := length_trimStart_le cs
      exact .step comment (ih (by omega))
    next ends => exact .stop ends

theorem PassesTo.trivia (h : PassesTo cs rest) :
    ∃ passed, cs = passed ++ rest ∧ Trivia rest passed := by
  have trimmed (cs : List Char) : cs = cs.takeWhile isBlank ++ trimStart cs :=
    List.takeWhile_append_dropWhile.symm
  have blank (cs : List Char) : ∀ c ∈ cs.takeWhile isBlank, isBlank c = true :=
    fun c member => List.mem_takeWhile_imp member
  induction h with
  | @stop cs ends =>
    refine ⟨cs.takeWhile isBlank, trimmed cs, ?_⟩
    have all : Trivia (trimStart cs) (cs.takeWhile isBlank ++ []) :=
      Trivia.nothing.blanks (blank cs)
    rwa [List.append_nil] at all
  | @step cs later rest comment more ih =>
    obtain ⟨passed, parts, inner⟩ := ih
    obtain ⟨taken, whole, outer⟩ := inner.comment comment parts
    refine ⟨cs.takeWhile isBlank ++ taken, ?_, outer.blanks (blank cs)⟩
    rw [List.append_assoc, ← whole]
    exact trimmed cs

/-- The loop stops in front of something that is neither a blank nor a comment to be passed over. -/
theorem PassesTo.stops (h : PassesTo cs rest) :
    trimStart rest = rest ∧ triviaStep? rest = none := by
  induction h with
  | @stop cs ends => exact ⟨trimStart_trimStart cs, ends⟩
  | step _ _ ih => exact ih

/-- From every text the loop past blanks and comments comes to an end. The text is the trivia that
it has passed over and a rest that starts with no blank, and with no comment but a doc comment or a
block comment that is never closed; nothing more is passed over in front of the rest. -/
theorem skipTrivia_takes_trivia (cs : List Char) :
    PassesTo cs (skipTrivia cs) ∧
    (∃ passed, cs = passed ++ skipTrivia cs ∧ Trivia (skipTrivia cs) passed) ∧
    (∀ c ∈ (skipTrivia cs).head?, isBlank c = false) ∧
    (['/', '/'] <+: skipTrivia cs → OpensDoc '/' (skipTrivia cs)) ∧
    (['/', '*'] <+: skipTrivia cs →
      OpensDoc '*' (skipTrivia cs) ∨ ¬ ['*', '/'] <:+: (skipTrivia cs).drop 2) ∧
    skipTrivia (skipTrivia cs) = skipTrivia cs := by
  have loop : PassesTo cs (skipTrivia cs) := passesTo_skipTriviaWithin (Nat.le_refl _)
  obtain ⟨solid, nothing⟩ := loop.stops
  obtain ⟨line, block⟩ := (triviaStep?_eq_none_iff _).mp nothing
  refine ⟨loop, loop.trivia, ?_, line, block, skipTrivia_of_none solid nothing⟩
  intro c first
  rw [← solid] at first
  exact stops_dropWhile first

/-- A comment that is not closed and a doc comment are left, an ordinary one is not. -/
example :
    skipTrivia " // a\n/* b **/\t/*/ c".toList = "/*/ c".toList ∧
      skipTrivia "////\n/***/ /**/".toList = "/**/".toList := by
  decide +kernel

end MacroExpansion.Text
