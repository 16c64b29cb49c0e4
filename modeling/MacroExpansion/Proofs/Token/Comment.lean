import MacroExpansion.Proofs.Token.Cut

/-!
# Comments in front of a cut

A comment that ends before a closing delimiter or a semicolon is the same where the text is cut off
there, be it passed over or kept as documentation. A line that ends before the cut has a line break
to end it; a block has its marks, and ends with them whatever follows.
-/
namespace MacroExpansion.Token

open Text Lexeme

theorem takes_afterNestedComment? (depth : Nat) : Takes (afterNestedComment? (depth + 1)) := by
  have both : ∀ depth cs rest, afterNestedComment? depth cs = some rest →
      rest <:+ cs ∧ (0 < depth → Taken cs rest) := by
    intro depth cs rest read
    fun_induction afterNestedComment? depth cs with
    | case1 cs =>
      cases read
      exact ⟨List.suffix_refl _, fun deep => absurd deep (Nat.lt_irrefl 0)⟩
    | case2 => cases read
    | case3 depth cs ih =>
      have left : Taken ('/' :: '*' :: cs) rest := (ih read).1.trans (List.suffix_cons '*' cs)
      exact ⟨left.suffix, fun _ => left⟩
    | case4 depth cs ih =>
      have left : Taken ('*' :: '/' :: cs) rest := (ih read).1.trans (List.suffix_cons '/' cs)
      exact ⟨left.suffix, fun _ => left⟩
    | case5 depth c cs _ _ ih =>
      have left : Taken (c :: cs) rest := (ih read).1
      exact ⟨left.suffix, fun _ => left⟩
  exact fun cs rest read => (both _ cs rest read).2 (Nat.succ_pos depth)

/-- The mark that closes a comment has two characters. -/
theorem length_afterNestedComment? {depth : Nat} {c : Char} {cs rest : List Char}
    (read : afterNestedComment? (depth + 1) (c :: cs) = some rest) : rest.length < cs.length := by
  have leaves (depth : Nat) : Leaves (afterNestedComment? depth) := by
    cases depth with
    | zero =>
      intro more rest read
      rw [afterNestedComment?] at read
      cases read
      exact List.suffix_refl more
    | succ depth => exact (takes_afterNestedComment? depth).leaves
  unfold afterNestedComment? at read
  split at read
  next => contradiction
  next => contradiction
  next _ _ _ same =>
    cases same
    exact Nat.lt_succ_of_le (leaves _ _ _ read).length_le
  next _ _ _ same =>
    cases same
    exact Nat.lt_succ_of_le (leaves _ _ _ read).length_le
  next _ _ _ same =>
    cases same
    exact (takes_afterNestedComment? _ _ _ read).length_lt

/-- A comment is closed before what follows it if and only if it is closed without that. -/
theorem afterNestedComment?_append_iff (depth : Nat) (xs rest k : List Char) :
    afterNestedComment? depth (xs ++ k) = some (rest ++ k) ↔
      afterNestedComment? depth xs = some rest := by
  fun_induction afterNestedComment? depth xs with
  | case1 cs => simp [afterNestedComment?]
  | case2 depth =>
    simpa [afterNestedComment?] using (takes_afterNestedComment? depth).not_nil k rest
  | case3 depth cs ih => exact ih
  | case4 depth cs ih => exact ih
  | case5 depth c cs opens closes ih =>
    cases cs with
    | nil =>
      refine iff_of_false (fun read => ?_) nofun
      have short : (rest ++ k).length < k.length := length_afterNestedComment? read
      rw [List.length_append] at short
      omega
    | cons d cs =>
      rw [List.cons_append, List.cons_append, afterNestedComment?]
      · exact ih
      · rintro more slash ⟨⟩
        exact opens cs slash rfl
      · rintro more star ⟨⟩
        exact closes cs star rfl

/-- Whether a text starts with a comment that is no doc comment; `mark` tells lines from blocks. -/
def startsPlain (mark : Char) (cs : List Char) : Bool :=
  ['/', mark, mark, mark].isPrefixOf cs ||
    (['/', mark].isPrefixOf cs && !(['/', mark, mark].isPrefixOf cs) &&
      !(['/', mark, '!'].isPrefixOf cs))

theorem startsLineComment_eq (cs : List Char) : startsLineComment cs = startsPlain '/' cs := by
  unfold startsPlain
  fun_cases startsLineComment cs with
  | case1 => rfl
  | case2 rest other =>
    have single : ['/'].isPrefixOf rest = false := isPrefixOf_absent other
    simp [List.isPrefixOf, single]
  | case3 => rfl
  | case4 rest _ slash mark =>
    have slash : ['/'].isPrefixOf rest = false := isPrefixOf_absent slash
    have mark : ['!'].isPrefixOf rest = false := isPrefixOf_absent mark
    simp [List.isPrefixOf, slash, mark]
  | case5 _ four three mark two =>
    rw [isPrefixOf_absent four, isPrefixOf_absent two]
    rfl

theorem startsBlockComment_eq (cs : List Char) : startsBlockComment cs = startsPlain '*' cs := by
  unfold startsPlain
  fun_cases startsBlockComment cs with
  | case1 => rfl
  | case2 rest other =>
    have single : ['*'].isPrefixOf rest = false := isPrefixOf_absent other
    simp [List.isPrefixOf, single]
  | case3 => rfl
  | case4 rest _ star mark =>
    have star : ['*'].isPrefixOf rest = false := isPrefixOf_absent star
    have mark : ['!'].isPrefixOf rest = false := isPrefixOf_absent mark
    simp [List.isPrefixOf, star, mark]
  | case5 _ four three mark two =>
    rw [isPrefixOf_absent four, isPrefixOf_absent two]
    rfl

theorem opened_of_startsBlockComment {cs : List Char} (block : startsBlockComment cs) :
    ∃ more, cs = '/' :: '*' :: more := by
  unfold startsBlockComment at block
  split at block
  · exact ⟨_, rfl⟩
  · cases block
  · cases block
  · exact ⟨_, rfl⟩
  · cases block

/-- A comment that is not closed is not closed after a cut. -/
theorem afterNestedComment?_none {full cut : List Char} (cuts : Cuts closers full cut) {depth : Nat}
    {xs : List Char} (unclosed : afterNestedComment? depth (xs ++ full) = none) :
    afterNestedComment? depth (xs ++ cut) = none := by
  obtain ⟨post, rfl⟩ := cuts.whole
  refine Option.eq_none_iff_forall_ne_some.mpr fun rest closed => ?_
  rw [← List.append_assoc, (afterNestedComment?_append_iff depth _ rest post).mpr closed]
    at unclosed
  cases unclosed

theorem startsPlain_unmarked {mark : Char} (known : mark ∈ marks) {k : List Char}
    (unmarked : Unmarked k) (xs : List Char) :
    startsPlain mark (xs ++ k) = startsPlain mark xs := by
  have slash : '/' ∈ marks := List.mem_cons_self
  have inner : '!' ∈ marks := by simp [marks]
  unfold startsPlain
  rw [isPrefixOf_unmarked (by simp [known, slash]) unmarked,
    isPrefixOf_unmarked (by simp [known, slash]) unmarked,
    isPrefixOf_unmarked (by simp [known, slash]) unmarked,
    isPrefixOf_unmarked (by simp [known, slash, inner]) unmarked]

section

variable {k : List Char}

theorem startsLineComment_unmarked (unmarked : Unmarked k) (xs : List Char) :
    startsLineComment (xs ++ k) = startsLineComment xs := by
  rw [startsLineComment_eq, startsLineComment_eq, startsPlain_unmarked (by decide) unmarked]

theorem startsBlockComment_unmarked (unmarked : Unmarked k) (xs : List Char) :
    startsBlockComment (xs ++ k) = startsBlockComment xs := by
  rw [startsBlockComment_eq, startsBlockComment_eq, startsPlain_unmarked (by decide) unmarked]

end

/-- The steps past a separator, told by how a text starts. -/
theorem separatorStep?_eq (cs : List Char) :
    separatorStep? cs =
      if startsLineComment cs then some (fromLineBreak cs)
      else if ['/', '*', '*', '/'].isPrefixOf cs then some (cs.drop 4)
      else if ['/', '*'].isPrefixOf cs then
        if startsBlockComment cs then afterNestedComment? 1 (cs.drop 2) else none
      else if cs.head?.any isSeparator then some (cs.drop 1) else none := by
  have closed {c : Char} {rest : List Char}
      (other : ∀ more, c = '/' → rest = '*' :: more → False) :
      ¬ ('/' = c ∧ ['*'] <+: rest) ∧ ¬ ('/' = c ∧ ['*', '*', '/'] <+: rest) :=
    ⟨fun ⟨slash, more, same⟩ => other more slash.symm same.symm,
      fun ⟨slash, more, same⟩ => other ('*' :: '/' :: more) slash.symm same.symm⟩
  fun_cases separatorStep? cs with
  | case1 => simp [*]
  | case2 rest => simp [startsLineComment, List.isPrefixOf]
  | case3 rest other line block =>
    have unclosed : ¬ ['*', '/'] <+: rest := fun ⟨more, same⟩ => other more same.symm
    simp [line, block, unclosed, List.isPrefixOf]
  | case4 rest other line block =>
    have unclosed : ¬ ['*', '/'] <+: rest := fun ⟨more, same⟩ => other more same.symm
    simp [line, block, unclosed, List.isPrefixOf]
  | case5 c rest _ other separator line =>
    simp [line, separator, List.isPrefixOf, closed other]
  | case6 c rest _ other separator line =>
    simp [line, separator, List.isPrefixOf, closed other]
  | case7 => rfl

/-- A line that has a line break ends there, whatever follows. -/
theorem fromLineBreak_append {xs : List Char} (nonempty : fromLineBreak xs ≠ []) (ys : List Char) :
    fromLineBreak (xs ++ ys) = fromLineBreak xs ++ ys := by
  unfold fromLineBreak at nonempty ⊢
  rw [List.dropWhile_append, if_neg (by simpa using nonempty)]

/-- A line that ends before what is no line break has a line break of its own. -/
theorem fromLineBreak_ended {c : Char} {xs post rest : List Char} (other : c ≠ '\n')
    (ends : fromLineBreak (xs ++ c :: post) = rest ++ c :: post) :
    fromLineBreak xs = rest ∧ fromLineBreak xs ≠ [] := by
  by_cases empty : fromLineBreak xs = []
  · have short : (post.dropWhile (· != '\n')).length ≤ post.length :=
      (List.dropWhile_suffix _).length_le
    unfold fromLineBreak at ends empty
    rw [List.dropWhile_append, empty, if_pos List.isEmpty_nil, List.dropWhile_cons,
      if_pos (by simpa using other)] at ends
    rw [ends, List.length_append, List.length_cons] at short
    omega
  · rw [fromLineBreak_append empty] at ends
    exact ⟨List.append_cancel_right ends, empty⟩

theorem fromLineBreak_cut {full cut xs rest : List Char} (cuts : Cuts closers full cut)
    (ends : fromLineBreak (xs ++ full) = rest ++ full) :
    fromLineBreak xs = rest ∧ fromLineBreak xs ≠ [] := by
  obtain ⟨c, post, member, rfl⟩ := cuts.start
  have plain : (';' :: closers).all (· != '\n') = true := by decide
  exact fromLineBreak_ended (by simpa using List.all_eq_true.mp plain c member) ends

theorem takes_fromLineBreak {cs : List Char} (line : startsLineComment cs) :
    Taken cs (fromLineBreak cs) := by
  cases cs with
  | nil => cases line
  | cons c cs =>
    have slash : c = '/' := by
      unfold startsLineComment at line
      split at line <;> simp_all
    rw [slash]
    change cs.dropWhile (· != '\n') <:+ cs
    exact List.dropWhile_suffix _

theorem takes_separatorStep? : Takes separatorStep? := by
  intro cs rest read
  rw [separatorStep?_eq] at read
  split at read
  next line =>
    cases read
    exact takes_fromLineBreak line
  split at read
  next closed =>
    rw [List.isPrefixOf_iff_prefix] at closed
    obtain ⟨more, rfl⟩ := closed
    cases read
    exact List.suffix_append ['*', '*', '/'] more
  split at read
  next opened =>
    rw [List.isPrefixOf_iff_prefix] at opened
    obtain ⟨more, rfl⟩ := opened
    split at read
    · have left : rest <:+ more := (takes_afterNestedComment? 0).leaves more rest read
      exact left.trans (List.suffix_cons '*' more)
    · cases read
  cases cs with
  | nil => cases read
  | cons c cs =>
    split at read
    · cases read
      exact List.suffix_refl cs
    · cases read

/-- The steps past a separator in front of what goes on with no mark. -/
theorem separatorStep?_unmarked {k : List Char} (unmarked : Unmarked k) (xs : List Char) :
    separatorStep? (xs ++ k) =
      if startsLineComment xs then some (fromLineBreak (xs ++ k))
      else if ['/', '*', '*', '/'].isPrefixOf xs then some (xs.drop 4 ++ k)
      else if ['/', '*'].isPrefixOf xs then
        if startsBlockComment xs then afterNestedComment? 1 (xs.drop 2 ++ k) else none
      else if (xs ++ k).head?.any isSeparator then some ((xs ++ k).drop 1) else none := by
  rw [separatorStep?_eq, startsLineComment_unmarked unmarked,
    isPrefixOf_unmarked (by decide) unmarked,
    isPrefixOf_unmarked (by decide) unmarked, startsBlockComment_unmarked unmarked]
  split
  next => rfl
  split
  next whole =>
    have long : 4 ≤ xs.length := (List.isPrefixOf_iff_prefix.mp whole).length_le
    rw [List.drop_append_of_le_length long]
  split
  next start =>
    have long : 2 ≤ xs.length := (List.isPrefixOf_iff_prefix.mp start).length_le
    rw [List.drop_append_of_le_length long]
  next => rfl

/-- No separator starts with a character that is none and starts no comment. -/
theorem separatorStep?_plain {c : Char} (slash : c ≠ '/') (plain : isSeparator c = false)
    (post : List Char) : separatorStep? (c :: post) = none := by
  rw [separatorStep?_eq]
  simp [startsLineComment_eq, startsPlain, List.isPrefixOf, slash.symm, plain]

theorem separatorStep?_letter {c : Char} (letter : isIdentifierStart c) (post : List Char) :
    separatorStep? (c :: post) = none := by
  refine separatorStep?_plain ?_ ?_ post
  · rintro rfl
    cases letter
  · rw [← Bool.not_eq_true]
    intro separates
    rw [not_start_of_stops c (mem_stops_of_isSeparator separates)] at letter
    cases letter

/-- A text in which something is passed over goes on with no name, number or literal. -/
theorem follows_of_separatorStep? {cs rest : List Char} (step : separatorStep? cs = some rest) :
    Follows cs := by
  cases cs with
  | nil => cases step
  | cons c post =>
    by_cases slash : c = '/'
    · subst slash
      exact .head List.mem_cons_self post
    cases separates : isSeparator c with
    | true => exact .head (mem_stops_of_isSeparator separates) post
    | false =>
      rw [separatorStep?_plain slash separates] at step
      cases step

section

variable {k k' xs rest : List Char}

/-- A separator is the same whatever follows without a mark, if its line ends. -/
theorem separatorStep?_swap (unmarked : Unmarked k) (unmarked' : Unmarked k')
    (line : startsLineComment xs → fromLineBreak (xs ++ k) = rest ++ k →
      fromLineBreak (xs ++ k') = rest ++ k')
    (step : separatorStep? (xs ++ k) = some (rest ++ k)) :
    separatorStep? (xs ++ k') = some (rest ++ k') := by
  have nonempty : xs ≠ [] := by
    rintro rfl
    exact takes_separatorStep?.not_nil k rest step
  obtain ⟨c, cs, rfl⟩ := List.exists_cons_of_ne_nil nonempty
  rw [separatorStep?_unmarked unmarked] at step
  rw [separatorStep?_unmarked unmarked']
  split
  next starts =>
    rw [if_pos starts] at step
    rw [line starts (Option.some.inj step)]
  next starts =>
    rw [if_neg starts] at step
    split
    next whole =>
      rw [if_pos whole] at step
      rw [List.append_cancel_right (Option.some.inj step)]
    next whole =>
      rw [if_neg whole] at step
      split
      next start =>
        rw [if_pos start] at step
        split
        next block =>
          rw [if_pos block, afterNestedComment?_append_iff] at step
          rw [afterNestedComment?_append_iff, step]
        next block =>
          rw [if_neg block] at step
          cases step
      next start =>
        rw [if_neg start] at step
        split at step
        next separates =>
          obtain rfl : cs = rest := List.append_cancel_right (Option.some.inj step)
          exact if_pos separates
        next => cases step

/-- Where no separator starts, none starts whatever follows without a mark, if no block is closed
there. -/
theorem separatorStep?_swap_none (unmarked : Unmarked k) (unmarked' : Unmarked k')
    (nonempty : xs ≠ [])
    (unclosed : startsBlockComment xs → afterNestedComment? 1 (xs.drop 2 ++ k) = none →
      afterNestedComment? 1 (xs.drop 2 ++ k') = none)
    (nothing : separatorStep? (xs ++ k) = none) : separatorStep? (xs ++ k') = none := by
  obtain ⟨c, cs, rfl⟩ := List.exists_cons_of_ne_nil nonempty
  rw [separatorStep?_unmarked unmarked] at nothing
  rw [separatorStep?_unmarked unmarked']
  split
  next starts => rw [if_pos starts] at nothing; cases nothing
  next starts =>
    rw [if_neg starts] at nothing
    split
    next whole => rw [if_pos whole] at nothing; cases nothing
    next whole =>
      rw [if_neg whole] at nothing
      split
      next start =>
        rw [if_pos start] at nothing
        split
        next block =>
          rw [if_pos block] at nothing
          exact unclosed block nothing
        next => rfl
      next start =>
        rw [if_neg start] at nothing
        split at nothing
        next => cases nothing
        next other => exact if_neg other

end

/-- A separator that ends before a cut is one after it, and where there is none before a cut there
is none after it. -/
theorem separatorStep?_cut {full cut : List Char} (cuts : Cuts closers full cut) (xs : List Char) :
    (∀ rest, separatorStep? (xs ++ full) = some (rest ++ full) →
      separatorStep? (xs ++ cut) = some (rest ++ cut)) ∧
    (separatorStep? (xs ++ full) = none → separatorStep? (xs ++ cut) = none) := by
  obtain ⟨unmarked, unmarked'⟩ := cuts.broken.unmarked
  refine ⟨fun rest => separatorStep?_swap unmarked unmarked' fun _ ends => ?_, fun nothing => ?_⟩
  · obtain ⟨same, nonempty⟩ := fromLineBreak_cut cuts ends
    rw [fromLineBreak_append nonempty, same]
  by_cases empty : xs = []
  · subst empty
    have plain : (';' :: closers).all (separatorStep? [·] = none) = true := by decide
    cases cuts with
    | before => rfl
    | behind member => simpa using List.all_eq_true.mp plain _ member
  · exact separatorStep?_swap_none unmarked unmarked' empty (fun _ => afterNestedComment?_none cuts)
      nothing

/-! ## Passing over separators -/

theorem skipSeparatorsWithin_suffix (n : Nat) (cs : List Char) :
    skipSeparatorsWithin n cs <:+ cs := by
  induction n generalizing cs with
  | zero => exact List.suffix_refl cs
  | succ n ih =>
    rw [skipSeparatorsWithin]
    cases found : separatorStep? cs with
    | none => exact List.suffix_refl cs
    | some rest => exact (ih rest).trans (takes_separatorStep? cs rest found).suffix

theorem skipSeparators_suffix (cs : List Char) : skipSeparators cs <:+ cs :=
  skipSeparatorsWithin_suffix cs.length cs

theorem skipSeparatorsWithin_of_none {cs : List Char} (nothing : separatorStep? cs = none)
    (n : Nat) : skipSeparatorsWithin n cs = cs := by
  cases n with
  | zero => rfl
  | succ n => rw [skipSeparatorsWithin, nothing]

/-- As many steps as there are characters pass over all separators. -/
theorem separatorStep?_skipSeparatorsWithin {n : Nat} {cs : List Char} (enough : cs.length ≤ n) :
    separatorStep? (skipSeparatorsWithin n cs) = none := by
  induction n generalizing cs with
  | zero =>
    cases cs with
    | nil => rfl
    | cons c cs => cases enough
  | succ n ih =>
    rw [skipSeparatorsWithin]
    cases found : separatorStep? cs with
    | none => exact found
    | some rest =>
      have short := (takes_separatorStep? cs rest found).length_lt
      exact ih (by omega)

/-- The steps past separators are as many as it takes. -/
theorem skipSeparatorsWithin_eq {n : Nat} {cs : List Char} (enough : cs.length ≤ n) :
    skipSeparatorsWithin n cs = skipSeparators cs := by
  have same (n : Nat) : ∀ (m : Nat) (cs : List Char), cs.length ≤ n → cs.length ≤ m →
      skipSeparatorsWithin n cs = skipSeparatorsWithin m cs := by
    induction n with
    | zero =>
      intro m cs empty _
      rw [List.length_eq_zero_iff.mp (Nat.le_zero.mp empty), skipSeparatorsWithin_of_none rfl,
        skipSeparatorsWithin_of_none rfl]
    | succ n ih =>
      intro m cs enough enough'
      rw [skipSeparatorsWithin]
      cases step : separatorStep? cs with
      | none => exact (skipSeparatorsWithin_of_none step m).symm
      | some rest =>
        have short := (takes_separatorStep? cs rest step).length_lt
        obtain ⟨m, rfl⟩ : ∃ k, m = k + 1 := ⟨m - 1, by omega⟩
        rw [skipSeparatorsWithin, step]
        exact ih m rest (by omega) (by omega)
  exact same n cs.length cs enough (Nat.le_refl _)

theorem skipSeparators_of_none {cs : List Char} (nothing : separatorStep? cs = none) :
    skipSeparators cs = cs :=
  skipSeparatorsWithin_of_none nothing _

theorem skipSeparators_of_some {cs rest : List Char} (step : separatorStep? cs = some rest) :
    skipSeparators cs = skipSeparators rest := by
  have short := (takes_separatorStep? cs rest step).length_lt
  obtain ⟨n, long⟩ : ∃ n, cs.length = n + 1 := ⟨cs.length - 1, by omega⟩
  rw [skipSeparators, long, skipSeparatorsWithin, step]
  exact skipSeparatorsWithin_eq (by omega)

theorem separatorStep?_skipSeparators (cs : List Char) :
    separatorStep? (skipSeparators cs) = none :=
  separatorStep?_skipSeparatorsWithin (Nat.le_refl _)

/-- What is passed over is passed over where something else follows, if each step of it is. -/
theorem skipSeparators_swap {k k' xs rest : List Char}
    (each : ∀ xs rest, separatorStep? (xs ++ k) = some (rest ++ k) →
      separatorStep? (xs ++ k') = some (rest ++ k'))
    (skipped : skipSeparators (xs ++ k) = rest ++ k) :
    skipSeparators (xs ++ k') = skipSeparators (rest ++ k') := by
  generalize long : xs.length = n
  induction n using Nat.strongRecOn generalizing xs with
  | ind n ih =>
    cases step : separatorStep? (xs ++ k) with
    | none =>
      rw [skipSeparators_of_none step] at skipped
      rw [List.append_cancel_right skipped]
    | some left =>
      rw [skipSeparators_of_some step] at skipped
      obtain ⟨front, whole⟩ := skipSeparators_suffix left
      rw [skipped, ← List.append_assoc] at whole
      subst whole
      have short := (takes_separatorStep? _ _ step).length_lt
      simp only [List.length_append] at short
      rw [skipSeparators_of_some (each _ _ step)]
      exact ih (front ++ rest).length (by rw [List.length_append]; omega) skipped rfl

/-- The separators before a cut are the same after it. -/
theorem skipSeparators_cut {full cut xs rest : List Char} (cuts : Cuts closers full cut)
    (skipped : skipSeparators (xs ++ full) = rest ++ full) :
    skipSeparators (xs ++ cut) = rest ++ cut := by
  have stuck : separatorStep? (rest ++ full) = none := by
    rw [← skipped]
    exact separatorStep?_skipSeparators _
  rw [skipSeparators_swap (fun xs => (separatorStep?_cut cuts xs).1) skipped]
  exact skipSeparators_of_none ((separatorStep?_cut cuts rest).2 stuck)

/-! ## Documentation -/

/-- The doc comments: inner ones or outer ones, lines or blocks. -/
structure DocForm where
  inner : Bool
  block : Bool

namespace DocForm

/-- Which doc comment a text starts with. -/
def of? (cs : List Char) : Option DocForm :=
  if ['/', '/', '!'].isPrefixOf cs then some ⟨true, false⟩
  else if ['/', '*', '!'].isPrefixOf cs then some ⟨true, true⟩
  else if ['/', '/', '/', '/'].isPrefixOf cs then none
  else if ['/', '/', '/'].isPrefixOf cs then some ⟨false, false⟩
  else if ['/', '*', '*', '*'].isPrefixOf cs then none
  else if ['/', '*', '*'].isPrefixOf cs then some ⟨false, true⟩
  else none

/-- The doc comment of a form whose opening a text follows. -/
def read? (form : DocForm) (cs : List Char) : Option DocComment :=
  if form.block then blockDoc? form.inner cs else some (lineDoc form.inner cs)

/-- An opening has three characters, the second of which tells blocks from lines. -/
theorem opening_of_of? {cs : List Char} {form : DocForm} (starts : of? cs = some form) :
    ∃ c more, cs = '/' :: (if form.block then '*' else '/') :: c :: more := by
  have opens {a b c : Char} (start : [a, b, c].isPrefixOf cs) :
      ∃ more, cs = a :: b :: c :: more := by
    obtain ⟨more, same⟩ := List.isPrefixOf_iff_prefix.mp start
    exact ⟨more, same.symm⟩
  unfold of? at starts
  split at starts
  next start =>
    cases starts
    exact ⟨_, opens start⟩
  split at starts
  next start =>
    cases starts
    exact ⟨_, opens start⟩
  split at starts
  next => cases starts
  split at starts
  next start =>
    cases starts
    exact ⟨_, opens start⟩
  split at starts
  next => cases starts
  split at starts
  next start =>
    cases starts
    exact ⟨_, opens start⟩
  next => cases starts

theorem of?_length {cs : List Char} {form : DocForm} (starts : of? cs = some form) :
    3 ≤ cs.length := by
  obtain ⟨c, more, rfl⟩ := opening_of_of? starts
  simp

/-- An opening has marks only. -/
theorem of?_unmarked {k : List Char} (unmarked : Unmarked k) (xs : List Char) :
    of? (xs ++ k) = of? xs := by
  unfold of?
  rw [isPrefixOf_unmarked (by decide) unmarked, isPrefixOf_unmarked (by decide) unmarked,
    isPrefixOf_unmarked (by decide) unmarked, isPrefixOf_unmarked (by decide) unmarked,
    isPrefixOf_unmarked (by decide) unmarked, isPrefixOf_unmarked (by decide) unmarked]

end DocForm

theorem docComment?_eq (cs : List Char) :
    docComment? cs = (DocForm.of? cs).bind fun form => form.read? (cs.drop 3) := by
  unfold DocForm.of?
  fun_cases docComment? cs with
  | case1 => rfl
  | case2 => rfl
  | case3 => rfl
  | case4 rest other =>
    have slash : ['/'].isPrefixOf rest = false := isPrefixOf_absent other
    simp [List.isPrefixOf, slash, DocForm.read?]
  | case5 => rfl
  | case6 rest other =>
    have star : ['*'].isPrefixOf rest = false := isPrefixOf_absent other
    simp [List.isPrefixOf, star, DocForm.read?]
  | case7 _ line block slashes outerLine stars outerBlock =>
    rw [isPrefixOf_absent line, isPrefixOf_absent block, isPrefixOf_absent slashes,
      isPrefixOf_absent outerLine, isPrefixOf_absent stars, isPrefixOf_absent outerBlock]
    rfl

theorem lineContent_append {xs : List Char} (ends : fromLineBreak xs ≠ []) (ys : List Char) :
    lineContent (xs ++ ys) = lineContent xs := by
  fun_induction lineContent xs with
  | case1 => exact absurd rfl ends
  | case2 => rfl
  | case3 => rfl
  | case4 c cs line windows ih =>
    have other : (c != '\n') = true := by simpa using line
    have later : fromLineBreak cs ≠ [] := by
      rw [fromLineBreak, List.dropWhile_cons, if_pos other] at ends
      exact ends
    rw [List.cons_append, lineContent, ih later]
    · exact line
    · intro more carriage same
      cases cs with
      | nil => exact later rfl
      | cons d cs =>
        cases same
        exact windows cs carriage rfl

theorem DocForm.read?_suffix {form : DocForm} {cs : List Char} {doc : DocComment}
    (read : form.read? cs = some doc) : doc.rest <:+ cs := by
  unfold DocForm.read? at read
  split at read
  · obtain ⟨rest, ends, rfl⟩ := Option.map_eq_some_iff.mp read
    exact (takes_afterNestedComment? 0).leaves cs rest ends
  · cases read
    exact List.dropWhile_suffix _

theorem takes_docComment? {cs : List Char} {doc : DocComment} (read : docComment? cs = some doc) :
    Taken cs doc.rest := by
  rw [docComment?_eq] at read
  obtain ⟨form, starts, read⟩ := Option.bind_eq_some_iff.mp read
  have left := DocForm.read?_suffix read
  cases cs with
  | nil => cases DocForm.of?_length starts
  | cons c cs => exact left.trans (List.drop_suffix 2 cs)

/-- A doc comment that ends before a cut is the same after it, and where there is none before a cut
there is none after it. -/
def Agree (full cut : List Char) (whole part : Option DocComment) : Prop :=
  (∀ doc rest, whole = some doc → doc.rest = rest ++ full →
    part = some { doc with rest := rest ++ cut }) ∧ (whole = none → part = none)

section

variable {full cut : List Char}

theorem agree_lineDoc (cuts : Cuts closers full cut) (inner : Bool) (xs : List Char) :
    Agree full cut (some (lineDoc inner (xs ++ full))) (some (lineDoc inner (xs ++ cut))) := by
  refine ⟨fun doc rest same ends => ?_, fun missing => nomatch missing⟩
  cases same
  obtain ⟨left, nonempty⟩ := fromLineBreak_cut cuts ends
  simp only [lineDoc, lineContent_append nonempty, fromLineBreak_append nonempty, left]

theorem agree_blockDoc? (cuts : Cuts closers full cut) (inner : Bool) (xs : List Char) :
    Agree full cut (blockDoc? inner (xs ++ full)) (blockDoc? inner (xs ++ cut)) := by
  refine ⟨fun doc rest read ends => ?_, fun missing => ?_⟩
  · obtain ⟨left, found, rfl⟩ := Option.map_eq_some_iff.mp read
    change left = rest ++ full at ends
    rw [ends] at found
    have closed := (afterNestedComment?_append_iff 1 xs rest full).mp found
    have suffix := (takes_afterNestedComment? 0).leaves xs rest closed
    rw [blockDoc?, (afterNestedComment?_append_iff 1 xs rest cut).mpr closed, ends,
      consumed_cut suffix]
    simp [consumed_cut suffix]
  · rw [blockDoc?, afterNestedComment?_none cuts (Option.map_eq_none_iff.mp missing)]
    rfl

theorem agree_docComment? (cuts : Cuts closers full cut) (xs : List Char) :
    Agree full cut (docComment? (xs ++ full)) (docComment? (xs ++ cut)) := by
  rw [docComment?_eq, docComment?_eq, DocForm.of?_unmarked cuts.broken.unmarked.1,
    DocForm.of?_unmarked cuts.broken.unmarked.2]
  cases starts : DocForm.of? xs with
  | none => exact ⟨fun doc rest read => (nomatch read), fun _ => rfl⟩
  | some form =>
    have long := DocForm.of?_length starts
    rw [List.drop_append_of_le_length long, List.drop_append_of_le_length long]
    simp only [Option.bind_some, DocForm.read?]
    split
    · exact agree_blockDoc? cuts form.inner _
    · exact agree_lineDoc cuts form.inner _

end

end MacroExpansion.Token
