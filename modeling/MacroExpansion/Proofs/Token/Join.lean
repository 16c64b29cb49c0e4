import MacroExpansion.Proofs.Token.Forest

/-!
# Texts that go on

A line break ends what would have ended with the text: a line comment, a name, a number, an
operator. So a text that has lexemes keeps them in front of a line break, whatever follows it.
Behind a semicolon it may go on with anything that forms no operator with it, and behind a word with
anything that is no part of the word. Main statement: a text, line breaks and another text have the
token trees of the one and then those of the other.
-/
namespace MacroExpansion.Token

open Text Lexeme

/-- A text goes on where it ended, with a line break or behind a semicolon, or goes on in another
way behind a word. -/
inductive GoesOn : (cut full : List Char) → Prop
  | line (post : List Char) : GoesOn [] ('\n' :: post)
  | semicolon (post : List Char) : GoesOn [';'] (';' :: post)
  | word {c : Char} {cs k k' : List Char} (letter : isIdentifierStart c)
      (readable : c ∉ unreadable) (follows : Follows k) (follows' : Follows k') :
      GoesOn (c :: cs ++ k) (c :: cs ++ k')

variable {xs post rest cut full : List Char}

theorem GoesOn.swaps (goesOn : GoesOn cut full) : Swaps full cut := by
  cases goesOn with
  | line post => exact .cut (.before (by simp [ends]) post)
  | semicolon post => exact .cut (.behind List.mem_cons_self post)
  | word letter readable follows follows' => exact .word letter readable follows' follows

/-! ## Separators and comments -/

theorem fromLineBreak_line (xs post : List Char) :
    fromLineBreak (xs ++ '\n' :: post) = fromLineBreak xs ++ '\n' :: post := by
  unfold fromLineBreak
  rw [List.dropWhile_append]
  split
  next empty =>
    rw [List.isEmpty_iff.mp empty]
    rfl
  next => rfl

/-- A line that has ended is the same where the text goes on: it has a line break of its own, or one
follows. -/
theorem fromLineBreak_goesOn (goesOn : GoesOn cut full)
    (left : fromLineBreak (xs ++ cut) = rest ++ cut) :
    (fromLineBreak xs = rest ∧ fromLineBreak xs ≠ []) ∨ ∃ post, cut = [] ∧ full = '\n' :: post := by
  cases goesOn with
  | line post => exact .inr ⟨post, rfl, rfl⟩
  | semicolon post => exact .inl (fromLineBreak_ended (by decide) left)
  | word letter =>
    refine .inl (fromLineBreak_ended ?_ left)
    rintro rfl
    cases letter

theorem fromLineBreak_full (goesOn : GoesOn cut full)
    (left : fromLineBreak (xs ++ cut) = rest ++ cut) :
    fromLineBreak (xs ++ full) = rest ++ full := by
  rcases fromLineBreak_goesOn goesOn left with ⟨same, nonempty⟩ | ⟨post, rfl, rfl⟩
  · rw [fromLineBreak_append nonempty, same]
  · rw [List.append_nil, List.append_nil] at left
    rw [fromLineBreak_line, left]

/-- A separator is one where the text goes on. -/
theorem separatorStep?_full (goesOn : GoesOn cut full)
    (step : separatorStep? (xs ++ cut) = some (rest ++ cut)) :
    separatorStep? (xs ++ full) = some (rest ++ full) :=
  separatorStep?_swap goesOn.swaps.unmarked.2 goesOn.swaps.unmarked.1
    (fun _ => fromLineBreak_full goesOn) step

/-- What is passed over is passed over where the text goes on. -/
theorem skipSeparators_full (goesOn : GoesOn cut full)
    (skipped : skipSeparators (xs ++ cut) = rest ++ cut) :
    skipSeparators (xs ++ full) = skipSeparators (rest ++ full) :=
  skipSeparators_swap (fun _ _ => separatorStep?_full goesOn) skipped

/-- What is passed over in a text is passed over in front of a line break. -/
theorem skipSeparators_line (xs post : List Char) :
    skipSeparators (xs ++ '\n' :: post) = skipSeparators (skipSeparators xs ++ '\n' :: post) :=
  skipSeparators_full (.line post) (by simp)

/-! ## Lexemes -/

/-- An opened block comment is no lexeme. -/
theorem plain?_opened (more : List Char) : plain? ('/' :: '*' :: more) = none := rfl

/-- A block comment that is no doc comment is nothing else, closed or not. -/
theorem next?_of_startsBlockComment {cs : List Char} (block : startsBlockComment cs) :
    next? cs = none := by
  obtain ⟨more, rfl, undocumented⟩ : ∃ more, cs = '/' :: '*' :: more ∧ docComment? cs = none := by
    unfold startsBlockComment at block
    split at block
    · exact ⟨_, rfl, rfl⟩
    · cases block
    · cases block
    next more _ star mark =>
      refine ⟨more, rfl, ?_⟩
      cases more with
      | nil => rfl
      | cons c more =>
        have star : c ≠ '*' := fun same => star more (by rw [same])
        have mark : c ≠ '!' := fun same => mark more (by rw [same])
        simp [docComment?, star, mark]
    · cases block
  rw [next?, undocumented, plain?_opened]
  rfl

/-- Where something comes next, what follows makes no separator of it. -/
theorem separatorStep?_none_full {lexemes : List Lexeme} {left : List Char}
    (goesOn : GoesOn cut full) (read : next? (xs ++ cut) = some (lexemes, left))
    (nothing : separatorStep? (xs ++ cut) = none) : separatorStep? (xs ++ full) = none := by
  obtain ⟨unmarked', unmarked⟩ := goesOn.swaps.unmarked
  by_cases empty : xs = []
  · subst empty
    cases goesOn with
    | line => cases read
    | semicolon post => rfl
    | word letter => exact separatorStep?_letter letter _
  · refine separatorStep?_swap_none unmarked unmarked' empty (fun block => ?_) nothing
    rw [← startsBlockComment_unmarked unmarked] at block
    rw [next?_of_startsBlockComment block] at read
    cases read

theorem lineContent_unbroken (cs more : List Char) : lineContent cs ≠ '\n' :: more := by
  fun_cases lineContent cs with
  | case1 => exact fun same => nomatch same
  | case2 => exact fun same => nomatch same
  | case3 => exact fun same => nomatch same
  | case4 c cs line _ => exact fun same => line (List.cons.inj same).1

/-- The line break that ends a doc comment is not part of it, as no carriage return comes before. -/
theorem lineContent_line {xs : List Char} (whole : hasLoneReturn (lineContent xs) = false)
    (post : List Char) : lineContent (xs ++ '\n' :: post) = lineContent xs := by
  fun_induction lineContent xs with
  | case1 => rfl
  | case2 => rfl
  | case3 => rfl
  | case4 c cs line _ ih =>
    by_cases carriage : c = '\r'
    · subst carriage
      have lone : hasLoneReturn ('\r' :: lineContent cs) = true := by
        rw [hasLoneReturn]
        exact fun more same => lineContent_unbroken cs more same
      rw [lone] at whole
      cases whole
    · have later : hasLoneReturn (lineContent cs) = false := by
        rwa [hasLoneReturn] at whole
        · exact fun more same => absurd same carriage
        · exact carriage
      rw [List.cons_append, lineContent, ih later]
      · exact line
      · exact fun more same => absurd same carriage

/-- A doc comment that has ended is the same where the text goes on. -/
theorem lineDoc_full (goesOn : GoesOn cut full) (inner : Bool)
    (left : fromLineBreak (xs ++ cut) = rest ++ cut)
    (whole : hasLoneReturn (lineContent (xs ++ cut)) = false) :
    lineDoc inner (xs ++ full) = { lineDoc inner (xs ++ cut) with rest := rest ++ full } := by
  have same : lineContent (xs ++ full) = lineContent (xs ++ cut) := by
    rcases fromLineBreak_goesOn goesOn left with ⟨-, nonempty⟩ | ⟨post, rfl, rfl⟩
    · rw [lineContent_append nonempty, lineContent_append nonempty]
    · rw [List.append_nil] at whole ⊢
      exact lineContent_line whole post
  simp only [lineDoc, same, fromLineBreak_full goesOn left]

theorem docComment?_full {doc : DocComment} (goesOn : GoesOn cut full)
    (read : docComment? (xs ++ cut) = some doc) (left : doc.rest = rest ++ cut)
    (whole : hasLoneReturn doc.content = false) :
    docComment? (xs ++ full) = some { doc with rest := rest ++ full } := by
  obtain ⟨unmarked', unmarked⟩ := goesOn.swaps.unmarked
  rw [docComment?_eq, DocForm.of?_unmarked unmarked] at read
  rw [docComment?_eq, DocForm.of?_unmarked unmarked']
  obtain ⟨form, starts, read⟩ := Option.bind_eq_some_iff.mp read
  have long := DocForm.of?_length starts
  rw [List.drop_append_of_le_length long] at read
  rw [starts, Option.bind_some, List.drop_append_of_le_length long]
  unfold DocForm.read? at read ⊢
  split at read
  next block =>
    obtain ⟨after, found, rfl⟩ := Option.map_eq_some_iff.mp read
    obtain rfl : after = rest ++ cut := left
    rw [afterNestedComment?_append_iff] at found
    have suffix : rest <:+ xs.drop 3 := (takes_afterNestedComment? 0).leaves _ _ found
    rw [if_pos block, blockDoc?, (afterNestedComment?_append_iff 1 _ rest full).mpr found,
      Option.map_some, consumed_cut suffix, consumed_cut suffix]
  next line =>
    cases read
    rw [if_neg line, lineDoc_full goesOn form.inner left whole]

/-- A doc comment that is never closed is nothing else. -/
theorem docComment?_none_full {lexemes : List Lexeme} {left : List Char} (goesOn : GoesOn cut full)
    (read : next? (xs ++ cut) = some (lexemes, left))
    (undocumented : docComment? (xs ++ cut) = none) :
    docComment? (xs ++ full) = none := by
  rw [docComment?_eq, DocForm.of?_unmarked goesOn.swaps.unmarked.1,
    ← DocForm.of?_unmarked goesOn.swaps.unmarked.2]
  cases starts : DocForm.of? (xs ++ cut) with
  | none => rfl
  | some form =>
    have unread := undocumented
    rw [docComment?_eq, starts, Option.bind_some, DocForm.read?] at unread
    split at unread
    next block =>
      obtain ⟨c, more, opened⟩ := DocForm.opening_of_of? starts
      rw [if_pos block] at opened
      rw [next?, undocumented, opened, plain?_opened] at read
      cases read
    next => cases unread

theorem plain?_full {l : Lexeme} (goesOn : GoesOn cut full)
    (read : plain? (xs ++ cut) = some (l, rest ++ cut)) :
    plain? (xs ++ full) = some (l, rest ++ full) := by
  have free : unreadable.isPrefixOf (xs ++ cut) = unreadable.isPrefixOf xs ∧
      unreadable.isPrefixOf (xs ++ full) = unreadable.isPrefixOf xs := by
    cases goesOn with
    | line post => exact ⟨by rw [List.append_nil], isPrefixOf_append_cons (by decide) xs post⟩
    | semicolon post =>
      exact ⟨isPrefixOf_append_cons (by decide) xs [], isPrefixOf_append_cons (by decide) xs post⟩
    | word _ readable =>
      exact ⟨isPrefixOf_append_cons readable xs _, isPrefixOf_append_cons readable xs _⟩
  rw [plain?_eq, free.1] at read
  rw [plain?_eq, free.2]
  split at read
  next whole =>
    have long : unreadable.length ≤ xs.length := (List.isPrefixOf_iff_prefix.mp whole).length_le
    rw [List.drop_append_of_le_length long] at read
    obtain ⟨rfl, left⟩ := Prod.mk.inj (Option.some.inj read)
    rw [if_pos whole, List.drop_append_of_le_length long, List.append_cancel_right left]
  next notWhole =>
    rw [if_neg notWhole]
    exact (local_readable?.same goesOn.swaps xs l rest).mpr read

/-- What comes next is the same where the text goes on. -/
theorem next?_full {lexemes : List Lexeme} (goesOn : GoesOn cut full)
    (read : next? (xs ++ cut) = some (lexemes, rest ++ cut)) :
    next? (xs ++ full) = some (lexemes, rest ++ full) := by
  cases found : docComment? (xs ++ cut) with
  | some doc =>
    have taken := read
    rw [next?, found] at taken
    dsimp only at taken
    split at taken
    next => cases taken
    next whole =>
      obtain ⟨rfl, left⟩ := Prod.mk.inj (Option.some.inj taken)
      rw [next?, docComment?_full goesOn found left (by simpa using whole)]
      dsimp only
      rw [if_neg whole]
      rfl
  | none =>
    have taken := read
    rw [next?, found] at taken
    obtain ⟨⟨l, _⟩, one, same⟩ := Option.map_eq_some_iff.mp taken
    cases same
    rw [next?, docComment?_none_full goesOn read found]
    dsimp only
    rw [plain?_full goesOn one]
    rfl

/-! ## Scans -/

/-- What is taken off a text after separators is taken off it where the text goes on. -/
theorem step_full {taken : List Char} {lexemes : List Lexeme} (goesOn : GoesOn cut full)
    (skipped : skipSeparators (xs ++ cut) = taken ++ (rest ++ cut))
    (read : next? (taken ++ (rest ++ cut)) = some (lexemes, rest ++ cut)) :
    skipSeparators (xs ++ full) = taken ++ (rest ++ full) ∧
      next? (taken ++ (rest ++ full)) = some (lexemes, rest ++ full) := by
  rw [← List.append_assoc] at skipped read
  have stuck : separatorStep? (taken ++ rest ++ cut) = none := by
    rw [← skipped]
    exact separatorStep?_skipSeparators _
  rw [← List.append_assoc]
  refine ⟨?_, next?_full goesOn read⟩
  rw [skipSeparators_full goesOn skipped]
  exact skipSeparators_of_none (separatorStep?_none_full goesOn read stuck)

/-- A text in front of a line break has its lexemes, and then come those of what follows. -/
theorem Scans.append {here : Position} {xs ys : List Char} {found later : List PlacedLexeme}
    (first : Scans here xs found) (second : Scans (here.after (xs ++ ['\n'])) ys later) :
    Scans here (xs ++ '\n' :: ys) (found ++ later) := by
  induction first with
  | @done here xs nothing =>
    have lineBreak : skipSeparators ('\n' :: ys) = skipSeparators ys := skipSeparators_of_some rfl
    have skipped : skipSeparators ((xs ++ ['\n']) ++ ys) = skipSeparators ys := by
      rw [List.append_assoc, List.singleton_append, skipSeparators_line, nothing, List.nil_append,
        lineBreak]
    rw [List.append_cons]
    exact .after_separators skipped second
  | @step here cs blank taken rest lexemes more text skipped read _ ih =>
    obtain ⟨skips, next⟩ := step_full (.line ys) (by simpa using skipped) (by simpa using read)
    rw [text, List.append_assoc, List.append_assoc] at second
    simp only [Position.after_append] at second ih
    rw [List.append_assoc]
    exact .step (by rw [text]; simp) skips next (ih second)

/-- What is scanned up to what stays there is scanned up to it where the text goes on. -/
theorem ScansTo.goesOn {here : Position} {found : List PlacedLexeme} (goesOn : GoesOn cut full)
    (stays : skipSeparators cut = cut) (scans : ScansTo cut here xs found) :
    ScansTo full here xs found := by
  induction scans with
  | @done here xs nothing =>
    have passed : skipSeparators (xs ++ cut) = [] ++ cut := nothing.trans stays
    exact .done (skipSeparators_full goesOn passed)
  | @step here xs blank taken rest lexemes later text skipped read _ ih =>
    obtain ⟨skips, next⟩ := step_full goesOn skipped read
    exact .step text skips next ih

/-- The lexemes of a text stop where it stops. -/
theorem Scans.stop_le {here : Position} {cs : List Char} {found : List PlacedLexeme}
    (scans : Scans here cs found) {l : PlacedLexeme} (member : l ∈ found) :
    l.extent.stop.offset ≤ here.offset + byteSize cs := by
  induction scans with
  | done => cases member
  | @step here cs blank taken rest lexemes later text _ _ _ ih =>
    have whole : byteSize cs = byteSize blank + (byteSize taken + byteSize rest) := by
      rw [text, byteSize_append, byteSize_append]
    rcases List.mem_append.mp member with first | among
    · obtain ⟨_, _, rfl⟩ := List.mem_map.mp first
      simp only [Position.offset_after]
      omega
    · have bound := ih among
      simp only [Position.offset_after] at bound
      omega

/-! ## The last lexeme -/

theorem startsComment_of_line {cs : List Char} (line : startsLineComment cs) :
    startsComment cs := by
  unfold startsLineComment at line
  split at line
  · rfl
  · rfl
  · rfl
  · rfl
  · cases line

/-- No punctuation stands where only separators are left. -/
theorem startsPunctuation_of_skipped {cs : List Char} (skipped : skipSeparators cs = []) :
    startsPunctuation cs = false := by
  cases step : separatorStep? cs with
  | none =>
    rw [skipSeparators_of_none step] at skipped
    rw [skipped]
    rfl
  | some rest =>
    cases comment : startsComment cs with
    | true => simp [startsPunctuation, comment]
    | false =>
      have line : ¬ startsLineComment cs := fun line => by
        rw [startsComment_of_line line] at comment
        cases comment
      rw [startsComment_eq, Bool.or_eq_false_iff] at comment
      have closed : ¬ ['/', '*', '*', '/'].isPrefixOf cs := fun closed => by
        have opened : ['/', '*'].isPrefixOf cs := by
          rw [List.isPrefixOf_iff_prefix] at closed ⊢
          exact (List.prefix_append ['/', '*'] ['*', '/']).trans closed
        rw [comment.2] at opened
        cases opened
      rw [separatorStep?_eq, if_neg line, if_neg closed, comment.2] at step
      cases cs with
      | nil => rfl
      | cons c cs =>
        have other : punctuation.all fun c => !isSeparator c := by decide
        have separates : isSeparator c := by
          simp at step
          exact step.1
        have absent : punctuation.contains c = false := by
          refine Bool.eq_false_iff.mpr fun member => ?_
          have plain := List.all_eq_true.mp other c (List.contains_iff_mem.mp member)
          rw [separates] at plain
          cases plain
        simp [startsPunctuation, absent, -List.contains_eq_mem]

theorem punct?_of_plain? {cs rest : List Char} {c : Char} {joint : Bool}
    (read : plain? cs = some (punct c joint, rest)) : punct? cs = some (punct c joint, rest) := by
  rw [plain?_eq] at read
  split at read
  · cases read
  rcases Option.or_eq_some_iff.mp read with read | ⟨_, read⟩
  · rcases Option.or_eq_some_iff.mp read with read | ⟨_, read⟩
    · rcases Option.or_eq_some_iff.mp read with read | ⟨_, read⟩
      · unfold delimiter? at read
        split at read <;> cases read
      · obtain ⟨_, _, same⟩ := Option.map_eq_some_iff.mp read
        cases same
    · exact read
  · unfold name? at read
    split at read
    · cases read
    · obtain ⟨_, _, same⟩ := Option.map_eq_some_iff.mp read
      cases same

theorem joint_of_punct? {cs rest : List Char} {c : Char} {joint : Bool}
    (read : punct? cs = some (punct c joint, rest)) (plain : c ≠ '\'') :
    joint = startsPunctuation rest := by
  unfold punct? at read
  split at read
  · split at read <;> cases read
    exact absurd rfl plain
  · split at read <;> cases read
    rfl
  · cases read

/-- Where there are no lexemes there are only separators. -/
theorem Scans.skipped {here : Position} {cs : List Char} (scans : Scans here cs []) :
    skipSeparators cs = [] := by
  generalize without : ([] : List PlacedLexeme) = found at scans
  cases scans with
  | done nothing => exact nothing
  | step _ _ read _ =>
    have empty := (List.append_eq_nil_iff.mp without.symm).1
    rw [List.map_eq_nil_iff] at empty
    subst empty
    rcases next?_some read with ⟨doc, same⟩ | ⟨l, same, _⟩
    · have last := ofDocComment_last doc
      rw [← same] at last
      cases last
    · cases same

/-- The last punctuation of a text forms no operator with what follows it. -/
theorem Scans.last_apart {here : Position} {cs : List Char} {found : List PlacedLexeme} {c : Char}
    {joint : Bool} {extent : Extent} (scans : Scans here cs found)
    (last : found.getLast? = some ⟨.punct c joint, extent⟩) (plain : c ≠ '\'') :
    joint = false := by
  induction scans with
  | done => cases last
  | @step here cs blank taken rest lexemes later text _ read after ih =>
    cases later with
    | cons l later =>
      rw [List.getLast?_append_of_ne_nil _ (List.cons_ne_nil l later)] at last
      exact ih last
    | nil =>
      rw [List.append_nil, List.getLast?_map] at last
      obtain ⟨l, final, same⟩ := Option.map_eq_some_iff.mp last
      cases same
      rcases next?_some read with ⟨doc, rfl⟩ | ⟨l, rfl, one⟩
      · rw [ofDocComment_last] at final
        cases final
      · cases final
        rw [joint_of_punct? (punct?_of_plain? one) plain]
        exact startsPunctuation_of_skipped after.skipped

end MacroExpansion.Token

namespace MacroExpansion.TokenTree

open Token

/-! ## Token trees -/

theorem Reads.eq_nil {lexemes : List PlacedLexeme} (reads : Reads lexemes []) : lexemes = [] := by
  cases reads
  rfl

theorem Reads.append {first later : List PlacedLexeme} {ts us : List TokenTree}
    (reads : Reads first ts) (behind : Reads later us) : Reads (first ++ later) (ts ++ us) := by
  induction reads with
  | done => exact behind
  | leaf single _ ih => exact .leaf single ih
  | group within _ _ ih =>
    rw [List.cons_append, List.append_assoc]
    exact .group within ih

/-- A tree stops where a lexeme does. -/
theorem Reads.stop_of_mem {lexemes : List PlacedLexeme} {ts : List TokenTree} {t : TokenTree}
    (reads : Reads lexemes ts) (member : t ∈ ts) :
    ∃ l ∈ lexemes, l.extent.stop = t.extent.stop := by
  induction reads with
  | done => cases member
  | @leaf l u rest ts single _ ih =>
    rcases List.mem_cons.mp member with rfl | among
    · refine ⟨l, List.mem_cons_self, ?_⟩
      unfold leaf? at single
      split at single <;> cases single <;> rfl
    · obtain ⟨l, later, same⟩ := ih among
      exact ⟨l, List.mem_cons_of_mem _ later, same⟩
  | @group d first last inner rest content ts _ _ _ ih =>
    rcases List.mem_cons.mp member with rfl | among
    · exact ⟨⟨.closing d, last⟩, by simp, rfl⟩
    · obtain ⟨l, later, same⟩ := ih among
      exact ⟨l, by simp [later], same⟩

/-- Punctuation that stands last among some trees stands last among their lexemes. -/
theorem Reads.last_punct {lexemes : List PlacedLexeme} {ts : List TokenTree} {c : Char}
    {joint : Bool} {extent : Extent} (reads : Reads lexemes ts)
    (last : ts.getLast? = some (.punct c joint extent)) :
    lexemes.getLast? = some ⟨.punct c joint, extent⟩ := by
  induction reads with
  | done => cases last
  | @leaf l t rest ts single later ih =>
    cases ts with
    | nil =>
      obtain rfl := later.eq_nil
      cases last
      obtain ⟨lexeme, place⟩ := l
      cases lexeme <;> cases single
      rfl
    | cons u ts =>
      have found := ih last
      rw [← List.singleton_append, List.getLast?_append, found]
      rfl
  | @group d first final inner rest content ts _ later _ ih =>
    cases ts with
    | nil => cases last
    | cons u ts =>
      have found := ih last
      have parts : (⟨.opening d, first⟩ :: (inner ++ ⟨.closing d, final⟩ :: rest) :
          List PlacedLexeme) =
            (⟨.opening d, first⟩ :: (inner ++ [⟨.closing d, final⟩])) ++ rest := by
        simp
      rw [parts, List.getLast?_append, found]
      rfl

/-! ## Trees of a text -/

/-- The trees of a text, told by what is scanned after a byte-order mark. -/
theorem ofText?_eq_some {cs : List Char} {ts : List TokenTree} (found : ofText? cs = some ts) :
    ∃ mark code lexemes, cs = mark ++ code ∧ (mark = [] ∨ mark = [Text.byteOrderMark]) ∧
      Scans (Position.origin.after mark) code lexemes ∧ Reads lexemes ts := by
  obtain ⟨lexemes, scanned, matched⟩ := Option.bind_eq_some_iff.mp found
  obtain ⟨mark, code, rfl, marked, scans⟩ := scans_of_scan? scanned
  exact ⟨mark, code, lexemes, rfl, marked, scans, ofLexemes?_eq_some_iff.mp matched⟩

theorem ofText?_of_scans {mark code : List Char} {lexemes : List PlacedLexeme}
    {ts : List TokenTree} (marked : mark = [] ∨ mark = [Text.byteOrderMark])
    (scans : Scans (Position.origin.after mark) code lexemes) (reads : Reads lexemes ts) :
    ofText? (mark ++ code) = some ts := by
  have scanned : Lexeme.scan? (mark ++ code) = some lexemes := by
    rcases marked with rfl | rfl
    · exact scans.scan?
    · exact scans.scan?_mark
  rw [ofText?, scanned, Option.bind_some, ofLexemes?_eq_some_iff]
  exact reads

/-- Texts set apart by a blank line have the trees of the one and then those of the other. -/
theorem ofText?_append {xs ys : List Char} {ts us : List TokenTree}
    (first : ofText? xs = some ts) (second : ofText? ys = some us)
    (unmarked : ys.head? ≠ some Text.byteOrderMark) :
    ∃ moved, ofText? (xs ++ '\n' :: '\n' :: ys) = some (ts ++ moved) ∧
      List.Forall₂ (Moved 0 (Text.byteSize xs + 2)) us moved := by
  obtain ⟨mark, code, lexemes, rfl, marked, scans, reads⟩ := ofText?_eq_some first
  obtain ⟨mark', ys, found, rfl, bare, scansLater, readsLater⟩ := ofText?_eq_some second
  obtain rfl : mark' = [] := by
    rcases bare with rfl | rfl
    · rfl
    · exact absurd rfl unmarked
  -- what follows is scanned from after the first line break on
  obtain ⟨moved, scansMoved, same⟩ :=
    scansLater.relocate (((Position.origin.after mark).after (code ++ ['\n'])).after ['\n'])
  have broken : Text.skipSeparators (['\n'] ++ ys) = Text.skipSeparators ys :=
    skipSeparators_of_some rfl
  have joined := scans.append (.after_separators broken scansMoved)
  obtain ⟨us', readsMoved, alike⟩ := readsLater.relocate same
  refine ⟨us', ?_, ?_⟩
  · rw [List.append_assoc]
    exact ofText?_of_scans marked joined (reads.append readsMoved)
  · have one : '\n'.utf8Size = 1 := by decide
    have place : (((Position.origin.after mark).after (code ++ ['\n'])).after ['\n']).offset =
        Text.byteSize (mark ++ code) + 2 := by
      simp only [Position.offset_after, Position.origin, Text.byteSize_append, Text.byteSize_cons,
        Text.byteSize_nil, one]
      omega
    rw [← place]
    exact alike

/-- The trees of a text stop where it stops. -/
theorem stop_le_of_ofText? {cs : List Char} {ts : List TokenTree} {t : TokenTree}
    (found : ofText? cs = some ts) (member : t ∈ ts) :
    t.extent.stop.offset ≤ Text.byteSize cs := by
  obtain ⟨mark, code, lexemes, rfl, _, scans, reads⟩ := ofText?_eq_some found
  obtain ⟨l, among, same⟩ := reads.stop_of_mem member
  have bound := scans.stop_le among
  rw [Position.offset_after, same] at bound
  simpa [Position.origin] using bound

/-- The last punctuation of a text forms no operator with what follows it. -/
theorem last_apart_of_ofText? {cs : List Char} {ts : List TokenTree} {c : Char} {joint : Bool}
    {extent : Extent} (found : ofText? cs = some ts)
    (last : ts.getLast? = some (.punct c joint extent)) (plain : c ≠ '\'') : joint = false := by
  obtain ⟨_, _, lexemes, _, _, scans, reads⟩ := ofText?_eq_some found
  exact scans.last_apart (reads.last_punct last) plain

end MacroExpansion.TokenTree
