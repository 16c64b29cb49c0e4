import MacroExpansion.Proofs.Token.Trim

/-!
# Texts without a word

A word is taken out of a text with the blanks around it, and one space is put in its place. Main
statement: if what stands between the word and one ahead of it does not end with a line comment,
then what is left has the tokens of the text but for the word.
-/
namespace MacroExpansion.Text

open Token

/-- Blanks and comments end with a line comment, if there is one that nothing but blanks follow. -/
inductive EndsLine : List Char → Prop
  | line {line blanks : List Char} (starts : startsLineComment line) (unbroken : '\n' ∉ line)
      (blank : ∀ c ∈ blanks, isBlank c = true) : EndsLine (line ++ blanks)
  | behind {cs rest : List Char} (separator : separatorStep? cs = some rest)
      (more : EndsLine rest) : EndsLine cs

variable {cs xs blanks : List Char}

/-- Behind what is no line comment a line comment is still to come. -/
theorem EndsLine.later {rest : List Char} (ends : EndsLine cs)
    (other : startsLineComment cs = false) (step : separatorStep? cs = some rest) :
    EndsLine rest := by
  cases ends with
  | line starts _ blank =>
    rw [startsLineComment_unmarked (unmarked_of_blanks blank), starts] at other
    cases other
  | behind separator more =>
    obtain rfl := Option.some.inj (separator.symm.trans step)
    exact more

theorem EndsLine.not_nil : ¬ EndsLine [] := by
  intro ends
  generalize without : ([] : List Char) = cs at ends
  cases ends with
  | line starts =>
    obtain ⟨rfl, -⟩ := List.append_eq_nil_iff.mp without.symm
    cases starts
  | behind separator =>
    subst without
    cases separator

/-- What is passed over up to a word is passed over without it. -/
theorem skipSeparators_ahead {c : Char} {post : List Char} (letter : isIdentifierStart c)
    (skipped : skipSeparators (xs ++ c :: post) = c :: post) : skipSeparators xs = [] := by
  have broken : c ≠ '\n' := by
    rintro rfl
    cases letter
  have each (xs rest : List Char)
      (step : separatorStep? (xs ++ c :: post) = some (rest ++ c :: post)) :
      separatorStep? (xs ++ []) = some (rest ++ []) := by
    refine separatorStep?_swap (.cons (not_mark_of_start letter) post) .nil (fun _ ends => ?_) step
    rw [List.append_nil, List.append_nil]
    exact (fromLineBreak_ended broken ends).1
  have passed : skipSeparators (xs ++ []) = skipSeparators ([] ++ []) :=
    skipSeparators_swap each skipped
  rwa [List.append_nil] at passed

/-- One space stands for the blanks at the end of a gap that does not end with a line comment. -/
theorem skipSeparators_gap (blank : ∀ c ∈ blanks, isBlank c = true)
    (passed : skipSeparators (xs ++ blanks) = []) (closed : ¬ EndsLine (xs ++ blanks))
    (post : List Char) : skipSeparators (xs ++ ' ' :: post) = skipSeparators post := by
  generalize long : xs.length = n
  induction n using Nat.strongRecOn generalizing xs with
  | ind n ih =>
    by_cases empty : xs = []
    · subst empty
      exact skipSeparators_of_some rfl
    cases step : separatorStep? (xs ++ blanks) with
    | none =>
      rw [skipSeparators_of_none step, List.append_eq_nil_iff] at passed
      exact absurd passed.1 empty
    | some rest =>
      rw [skipSeparators_of_some step] at passed
      -- only a line goes on into the blanks, and then the gap ends with it
      rcases separatorStep?_blanks blank empty step with
        ⟨line, unended, -⟩ | ⟨left, rfl, next, line⟩
      · have unbroken : '\n' ∉ xs := fun member => by
          have each := List.dropWhile_eq_nil_iff.mp unended '\n' member
          cases each
        exact absurd (.line line unbroken blank) closed
      · have there : separatorStep? (xs ++ ' ' :: post) = some (left ++ ' ' :: post) := by
          refine separatorStep?_swap .nil (.cons (by decide) post) (fun starts _ => ?_)
            (by simpa using next)
          obtain ⟨same, more⟩ := line starts
          rw [← same, fromLineBreak_append (same ▸ more)]
        have short := (takes_separatorStep? _ _ next).length_lt
        rw [skipSeparators_of_some there]
        exact ih left.length (by omega) passed (fun more => closed (.behind step more)) rfl

end MacroExpansion.Text

namespace MacroExpansion.Token

open Text Lexeme

/-- What is scanned up to separators is scanned up to what follows them. -/
theorem ScansTo.past {k blank xs : List Char} {here : Position} {found : List PlacedLexeme}
    (passed : skipSeparators (blank ++ k) = skipSeparators k)
    (scans : ScansTo (blank ++ k) here xs found) : ScansTo k here (xs ++ blank) found := by
  induction scans with
  | done nothing => exact .done (by rw [List.append_assoc, nothing, passed])
  | @step here xs gap taken rest lexemes later text skipped read _ ih =>
    have whole : xs ++ blank = gap ++ (taken ++ (rest ++ blank)) := by
      rw [text]
      simp
    refine .step whole ?_ ?_ ih
    · rw [List.append_assoc, List.append_assoc, skipped]
    · rw [List.append_assoc]
      exact read

theorem skipSeparators_name {cs rest : List Char} {l : Lexeme} (read : name? cs = some (l, rest)) :
    skipSeparators cs = cs := by
  cases cs with
  | nil => rfl
  | cons c cs => exact skipSeparators_of_none (separatorStep?_letter (name?_start read).1 cs)

/-- A word among the lexemes of a text is written there, what stands ahead of it is scanned up to
it, and what follows it is scanned on. -/
theorem Scans.at_word {here : Position} {cs : List Char} {before later : List PlacedLexeme}
    {spelling : String} {extent : Extent}
    (scans : Scans here cs (before ++ ⟨.ident spelling, extent⟩ :: later))
    (outside : ∀ l ∈ before.getLast?, l.lexeme ≠ .opening .bracket) :
    ∃ ahead rest, cs = ahead ++ (spelling.toList ++ rest) ∧
      extent = ⟨here.after ahead, (here.after ahead).after spelling.toList⟩ ∧
      name? (spelling.toList ++ rest) = some (.ident spelling, rest) ∧
      ScansTo (spelling.toList ++ rest) here ahead before ∧ Scans extent.stop rest later := by
  obtain ⟨front, rest, rfl, scansTo, own⟩ := scans.part outside (by simp [opens])
  obtain ⟨blank, taken, rest, rfl, skipped, place, read, behind⟩ := own.first_plain (by simp)
  have named := name?_of_plain? read
  obtain rfl : taken = spelling.toList := List.append_cancel_right (word_of_name? named).1
  refine ⟨front ++ blank, rest, by simp, ?_, named, scansTo.past ?_, behind⟩
  · rw [Position.after_append]
    exact place
  · rw [skipped, skipSeparators_name named]

/-- Behind a word a text may go on in another way. -/
theorem ScansTo.append_word {here : Position} {ahead k k' : List Char} {first : String}
    {before later : List PlacedLexeme} (scansTo : ScansTo (first.toList ++ k) here ahead before)
    (named : name? (first.toList ++ k) = some (.ident first, k))
    (readable : ∀ c ∈ first.toList.head?, c ∉ unreadable) (follows : Follows k)
    (follows' : Follows k') (behind : Scans ((here.after ahead).after first.toList) k' later) :
    Scans here (ahead ++ (first.toList ++ k')) (before ++
      ⟨.ident first, ⟨here.after ahead, (here.after ahead).after first.toList⟩⟩ :: later) := by
  have alone : name? first.toList = some (.ident first, []) := by
    rw [name?_cut follows] at named
    obtain ⟨⟨_, rest⟩, own, same⟩ := Option.map_eq_some_iff.mp named
    obtain ⟨rfl, left⟩ := Prod.mk.inj same
    rw [own, List.append_left_eq_self.mp left]
  have there : name? (first.toList ++ k') = some (.ident first, k') := by
    rw [name?_cut follows', alone]
    rfl
  have stays := skipSeparators_name named
  obtain ⟨c, cs, spelled⟩ : ∃ c cs, first.toList = c :: cs := by
    refine List.exists_cons_of_ne_nil fun empty => ?_
    rw [empty] at alone
    cases alone
  have upTo : ScansTo (first.toList ++ k') here ahead before := by
    rw [spelled] at scansTo readable stays alone ⊢
    exact scansTo.goesOn (.word (name?_start alone).1 (readable c rfl) follows follows') stays
  exact upTo.append (.step (List.nil_append _).symm (skipSeparators_name there)
    (next?_of_name? there) behind)

/-- A gap between two words starts with what no name goes on with. -/
theorem follows_of_gap {cs gap after : List Char} {l : Lexeme}
    (named : name? cs = some (l, gap ++ after)) (skipped : skipSeparators (gap ++ after) = after)
    (joins : ∀ c ∈ after.head?, isIdentifierPart c) (nonempty : after ≠ []) :
    Follows (gap ++ after) := by
  have apart : gap ≠ [] := by
    rintro rfl
    obtain ⟨c, later, rfl⟩ := List.exists_cons_of_ne_nil nonempty
    have stops := behind_name? named c rfl
    rw [joins c rfl] at stops
    cases stops
  cases step : separatorStep? (gap ++ after) with
  | none =>
    rw [skipSeparators_of_none step] at skipped
    exact absurd (List.append_left_eq_self.mp skipped) apart
  | some rest => exact follows_of_separatorStep? step

/-- So does the gap without the blanks at its end, if a space follows. -/
theorem Follows.trimEnd {gap after : List Char} (follows : Follows (gap ++ after))
    (post : List Char) : Follows (trimEnd gap ++ ' ' :: post) := by
  obtain ⟨blanks, whole, -⟩ := trimEnd_eq gap
  cases left : Text.trimEnd gap with
  | nil => exact .head (by decide) post
  | cons c rest =>
    rw [whole, left] at follows
    cases follows with
    | head stop => exact .head stop _

/-- A word that is taken out of a text, with the blanks around it, behind a word and a gap that does
not end with a line comment: with a space in its place the text has its other lexemes. -/
theorem Scans.without_word {here : Position} {cs : List Char} {before later : List PlacedLexeme}
    {first word : String} {place extent : Extent}
    (scans : Scans here cs (before ++ ⟨.ident first, place⟩ :: ⟨.ident word, extent⟩ :: later))
    (outside : ∀ l ∈ before.getLast?, l.lexeme ≠ .opening .bracket)
    (readable : ∀ c ∈ first.toList.head?, c ∉ unreadable)
    (joins : ∀ c ∈ word.toList.head?, isIdentifierPart c) :
    ∃ ahead gap after, cs = ahead ++ (first.toList ++ (gap ++ (word.toList ++ after))) ∧
      place.stop = (here.after ahead).after first.toList ∧
      extent = ⟨place.stop.after gap, (place.stop.after gap).after word.toList⟩ ∧
      (¬ EndsLine gap → ∃ moved,
        Scans here (ahead ++ (first.toList ++ (trimEnd gap ++ ' ' :: trimStart after)))
          (before ++ ⟨.ident first, place⟩ :: moved) ∧
        ∃ x y, List.Forall₂ (PlacedLexeme.Moved x y) later moved) := by
  obtain ⟨ahead, rest, rfl, rfl, named, scansTo, behind⟩ := scans.at_word outside
  obtain ⟨gap, taken, after, rfl, skipped, own, read, last⟩ := behind.first_plain (by simp)
  have namedWord := name?_of_plain? read
  obtain rfl : taken = word.toList := List.append_cancel_right (word_of_name? namedWord).1
  refine ⟨ahead, gap, after, rfl, rfl, own, fun closed => ?_⟩
  obtain ⟨w, ws, spelled⟩ : ∃ w ws, word.toList = w :: ws := by
    refine List.exists_cons_of_ne_nil fun empty => ?_
    rw [empty] at namedWord
    exact absurd (local_name?.takes _ _ _ namedWord).length_lt (Nat.lt_irrefl _)
  rw [spelled] at skipped namedWord named scansTo joins
  have follows := follows_of_gap named skipped (fun c first => joins c first) (by simp)
  -- with the gap trimmed, and without the blanks behind the word, the same separators are passed
  -- over
  obtain ⟨blanks, whole, blank⟩ := trimEnd_eq gap
  have passed : skipSeparators gap = [] := skipSeparators_ahead (name?_start namedWord).1 skipped
  rw [whole] at passed closed
  have joined : skipSeparators ((trimEnd gap ++ [' ']) ++ trimStart after) =
      skipSeparators (trimStart after) := by
    rw [List.append_assoc]
    exact skipSeparators_gap blank passed closed _
  obtain ⟨blanksBehind, split⟩ : ∃ blanks, blanks ++ trimStart after = after :=
    List.dropWhile_suffix isBlank
  have trimmed := skipSeparators_trimStart after
  rw [← split] at last
  nth_rewrite 2 [← split] at trimmed
  obtain ⟨moved, scansMoved, alike⟩ := (last.without_separators trimmed).relocate
    ((((here.after ahead).after first.toList)).after (trimEnd gap ++ [' ']))
  have later := Scans.after_separators joined scansMoved
  rw [List.append_assoc] at later
  exact ⟨moved, scansTo.append_word named readable follows (follows.trimEnd _) later, _, _, alike⟩

end MacroExpansion.Token

namespace MacroExpansion.TokenTree

open Token Text

variable {cs : List Char} {front back : List TokenTree} {word : String} {extent : Extent}

theorem outside_of_reads {lexemes : List PlacedLexeme} (reads : Reads lexemes front) :
    ∀ l ∈ lexemes.getLast?, l.lexeme ≠ .opening .bracket := by
  intro l last
  obtain ⟨t, -, same⟩ := reads.last_lexeme last
  rw [same]
  cases t <;> simp [lastLexeme]

/-- A word among the tokens of a text is written there, and behind it come the tokens that follow
it. -/
theorem word_of_ofText? (found : ofText? cs = some (front ++ .ident word extent :: back)) :
    ∃ before after lexemes, cs = before ++ (word.toList ++ after) ∧
      extent.start.offset = byteSize before ∧
      extent.stop.offset = byteSize before + byteSize word.toList ∧
      Scans extent.stop after lexemes ∧ Reads lexemes back := by
  obtain ⟨mark, code, lexemes, rfl, -, scans, reads⟩ := ofText?_eq_some found
  obtain ⟨early, late, rfl, readsFront, readsWord⟩ := reads.split
  cases readsWord with
  | leaf single readsBack =>
    rw [eq_of_leaf?_ident single] at scans
    obtain ⟨ahead, after, rfl, rfl, -, -, behind⟩ := scans.at_word (outside_of_reads readsFront)
    refine ⟨mark ++ ahead, after, _, by simp, ?_, ?_, behind, readsBack⟩
    · simp [Position.offset_after, Position.origin]
    · simp [Position.offset_after, Position.origin]

/-- A word stands in a place once. -/
theorem not_mem_of_word (found : ofText? cs = some (front ++ .ident word extent :: back))
    (nonempty : word.toList ≠ []) : .ident word extent ∉ back := by
  intro among
  obtain ⟨before, after, lexemes, -, start, stop, scans, reads⟩ := word_of_ofText? found
  obtain ⟨inner, later, rfl⟩ := List.append_of_mem among
  obtain ⟨early, late, rfl, -, readsWord⟩ := reads.split
  cases readsWord with
  | leaf single _ =>
    rw [eq_of_leaf?_ident single] at scans
    have behind := scans.start_ge (List.mem_append_right _ List.mem_cons_self)
    have wide : 0 < byteSize word.toList := by
      obtain ⟨c, rest, same⟩ := List.exists_cons_of_ne_nil nonempty
      rw [same, byteSize_cons]
      exact Nat.add_pos_left c.utf8Size_pos _
    simp only [start, stop] at behind
    omega

/-- The tokens around a word are told by its place. -/
theorem word_parts {front' back' : List TokenTree}
    (found : ofText? cs = some (front ++ .ident word extent :: back))
    (same : front ++ .ident word extent :: back = front' ++ .ident word extent :: back')
    (nonempty : word.toList ≠ []) : front = front' ∧ back = back' := by
  have ahead : .ident word extent ∉ front := fun among => by
    obtain ⟨inner, later, rfl⟩ := List.append_of_mem among
    rw [List.append_assoc, List.cons_append] at found
    exact not_mem_of_word found nonempty (by simp)
  obtain ⟨rfl, -, rfl⟩ :=
    (List.append_cons_inj_of_notMem ahead (not_mem_of_word found nonempty)).mp same
  exact ⟨rfl, rfl⟩

/-- Where what stands between two words does not end with a line comment, the text has its other
tokens with a space in place of the second word and the blanks around it. -/
theorem ofText?_without_word {first : String} {place : Extent}
    (found : ofText? cs = some (front ++ .ident first place :: .ident word extent :: back))
    (readable : ∀ c ∈ first.toList.head?, c ∉ Lexeme.unreadable)
    (solid : ∃ c ∈ first.toList.getLast?, isBlank c = false)
    (joins : ∀ c ∈ word.toList.head?, isIdentifierPart c)
    (closed : ∀ gap ∈ slice? cs place.stop.offset extent.start.offset, ¬ EndsLine gap) :
    ∃ before after us, cs = before ++ (word.toList ++ after) ∧
      extent.start.offset = byteSize before ∧
      extent.stop.offset = byteSize before + byteSize word.toList ∧
      ofText? (trimEnd before ++ ' ' :: trimStart after) = some us ∧
      unplacedAll us = unplacedAll (front ++ .ident first place :: back) := by
  obtain ⟨mark, code, lexemes, rfl, marked, scans, reads⟩ := ofText?_eq_some found
  obtain ⟨early, late, rfl, readsFront, readsWords⟩ := reads.split
  obtain ⟨c, last, solid⟩ := solid
  obtain ⟨inner, spelled⟩ := List.getLast?_eq_some_iff.mp last
  cases readsWords with
  | leaf single readsWord =>
    cases readsWord with
    | leaf second readsBack =>
      rw [eq_of_leaf?_ident single, eq_of_leaf?_ident second] at scans
      obtain ⟨ahead, gap, after, rfl, stop, rfl, without⟩ :=
        scans.without_word (outside_of_reads readsFront) readable joins
      have slice : slice? (mark ++ (ahead ++ (first.toList ++ (gap ++ (word.toList ++ after)))))
          place.stop.offset (place.stop.after gap).offset = some gap := by
        have cut := slice?_append (mark ++ ahead ++ first.toList) gap (word.toList ++ after)
        simpa [stop, Position.offset_after, Position.origin, Nat.add_assoc] using cut
      obtain ⟨moved, scansMoved, x, y, alike⟩ := without (closed gap slice)
      obtain ⟨vs, readsMoved, alikeTrees⟩ := readsBack.relocate alike
      have trimmed : trimEnd (mark ++ (ahead ++ (first.toList ++ gap))) =
          mark ++ (ahead ++ (first.toList ++ trimEnd gap)) := by
        have parts := trimEnd_append_cons solid (mark ++ ahead ++ inner) gap
        simpa [spelled] using parts
      refine ⟨mark ++ (ahead ++ (first.toList ++ gap)), after,
        front ++ .ident first place :: vs, by simp, ?_, ?_, ?_, ?_⟩
      · simp [stop, Position.offset_after, Position.origin, Nat.add_assoc]
      · simp [stop, Position.offset_after, Position.origin, Nat.add_assoc]
      · rw [trimmed]
        have whole := ofText?_of_scans marked scansMoved (readsFront.append (.leaf rfl readsMoved))
        simpa using whole
      · have same := unplacedAll_of_moved alikeTrees
        rw [unplacedAll_eq_map, unplacedAll_eq_map] at same ⊢
        simp [same]

end MacroExpansion.TokenTree
