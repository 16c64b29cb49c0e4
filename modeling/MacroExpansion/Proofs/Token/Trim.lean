import Mathlib.Data.List.TakeWhile
import MacroExpansion.Proofs.Token.Stretch

/-!
# Texts without the blanks around them

The blanks around a text separate nothing, so it has its tokens without them. A blank that ends the
text may however end a line comment, or go on with documentation. Main statement: a text that ends
with a semicolon, comments and blanks has the same tokens without the blanks at its ends.
-/
namespace MacroExpansion.Text

open Token

/-! ## Blanks -/

theorem not_blank {c : Char} (member : c ∈ ['/', '*', '!', ';', byteOrderMark]) :
    isBlank c = false := by
  have plain : ['/', '*', '!', ';', byteOrderMark].all (!isBlank ·) = true := by decide
  simpa using List.all_eq_true.mp plain c member

theorem isBlank_ne {c d : Char} (blank : isBlank c = true)
    (member : d ∈ ['/', '*', '!', ';', byteOrderMark]) : c ≠ d := by
  rintro rfl
  rw [not_blank member] at blank
  cases blank

/-- What is trimmed off the end of a text is blank. -/
theorem trimEnd_eq (cs : List Char) :
    ∃ blanks, cs = trimEnd cs ++ blanks ∧ ∀ c ∈ blanks, isBlank c = true := by
  refine ⟨(cs.reverse.takeWhile isBlank).reverse, ?_, fun c member => ?_⟩
  · rw [trimEnd, ← List.reverse_append, List.takeWhile_append_dropWhile, List.reverse_reverse]
  · exact List.mem_takeWhile_imp (List.mem_reverse.mp member)

theorem trimEnd_append_cons {c : Char} (plain : isBlank c = false) (xs ys : List Char) :
    trimEnd (xs ++ c :: ys) = xs ++ c :: trimEnd ys := by
  rw [trimEnd, trimEnd, List.reverse_append, List.reverse_cons, List.append_assoc,
    List.dropWhile_append]
  split
  next empty =>
    rw [List.isEmpty_iff.mp empty, List.singleton_append, List.dropWhile_cons,
      if_neg (by simp [plain])]
    simp
  next => simp

/-- Blanks at the start of a text are passed over. -/
theorem skipSeparators_trimStart (cs : List Char) :
    skipSeparators (trimStart cs) = skipSeparators cs := by
  induction cs with
  | nil => rfl
  | cons c cs ih =>
    rw [trimStart, List.dropWhile_cons]
    split
    next blank =>
      have step : separatorStep? (c :: cs) = some cs := by
        have slash : c ≠ '/' := isBlank_ne blank (by simp)
        rw [separatorStep?_eq]
        simp [startsLineComment_eq, startsPlain, List.isPrefixOf, slash.symm, isSeparator, blank]
      rw [skipSeparators_of_some step]
      exact ih
    next => rfl

theorem not_mark_of_blank {c : Char} (blank : isBlank c = true) : c ∉ marks := by
  have each : marks ⊆ ['/', '*', '!', ';', byteOrderMark] := by simp [marks]
  exact fun mark => isBlank_ne blank (each mark) rfl

section

variable {xs rest blanks : List Char}

theorem unmarked_of_blanks (blank : ∀ c ∈ blanks, isBlank c = true) : Unmarked blanks :=
  fun c first => not_mark_of_blank (blank c (List.mem_of_mem_head? first))

/-- No mark of a comment is blank, so blanks end none and go on with none. -/
theorem afterNestedComment?_blanks (blank : ∀ c ∈ blanks, isBlank c = true) (depth : Nat)
    (xs : List Char) :
    afterNestedComment? depth (xs ++ blanks) =
      (afterNestedComment? depth xs).map (· ++ blanks) := by
  have unmarked {mark : Char} {more : List Char} (member : mark ∈ marks) :
      blanks ≠ mark :: more := by
    rintro rfl
    exact not_mark_of_blank (blank mark List.mem_cons_self) member
  have unclosed {blanks : List Char} (blank : ∀ c ∈ blanks, isBlank c = true) (depth : Nat) :
      afterNestedComment? (depth + 1) blanks = none := by
    induction blanks with
    | nil => rfl
    | cons c blanks ih =>
      have other := not_mark_of_blank (blank c List.mem_cons_self)
      rw [afterNestedComment?]
      · exact ih fun d member => blank d (List.mem_cons_of_mem c member)
      · rintro more rfl
        exact absurd (by decide) other
      · rintro more rfl
        exact absurd (by decide) other
  fun_induction afterNestedComment? depth xs with
  | case1 cs => simp [afterNestedComment?]
  | case2 depth => exact unclosed blank depth
  | case3 depth cs ih => exact ih
  | case4 depth cs ih => exact ih
  | case5 depth d cs opens closes ih =>
    rw [List.cons_append, afterNestedComment?]
    · exact ih
    · intro more first same
      cases cs with
      | nil => exact unmarked (by decide) same
      | cons e cs =>
        cases same
        exact opens cs first rfl
    · intro more first same
      cases cs with
      | nil => exact unmarked (by decide) same
      | cons e cs =>
        cases same
        exact closes cs first rfl

/-- A separator in front of blanks is one without them, and goes on into them only if it is a line
that has not ended. -/
theorem separatorStep?_blanks (blank : ∀ c ∈ blanks, isBlank c = true) (nonempty : xs ≠ [])
    (step : separatorStep? (xs ++ blanks) = some rest) :
    (startsLineComment xs ∧ fromLineBreak xs = [] ∧ separatorStep? xs = some []) ∨
      ∃ left, rest = left ++ blanks ∧ separatorStep? xs = some left ∧
        (startsLineComment xs → fromLineBreak xs = left ∧ left ≠ []) := by
  obtain ⟨c, cs, rfl⟩ := List.exists_cons_of_ne_nil nonempty
  rw [separatorStep?_unmarked (unmarked_of_blanks blank)] at step
  rw [← List.append_nil (c :: cs), separatorStep?_unmarked .nil]
  simp only [List.append_nil]
  split at step
  next line =>
    rw [if_pos line]
    by_cases unended : fromLineBreak (c :: cs) = []
    · exact .inl ⟨line, unended, congrArg some unended⟩
    · rw [fromLineBreak_append unended] at step
      exact .inr ⟨_, (Option.some.inj step).symm, rfl, fun _ => ⟨rfl, unended⟩⟩
  next line =>
    rw [if_neg line]
    refine .inr ?_
    split at step
    next whole =>
      exact ⟨_, (Option.some.inj step).symm, if_pos whole, fun starts => absurd starts line⟩
    next whole =>
      rw [if_neg whole]
      split at step
      next start =>
        rw [if_pos start]
        split at step
        next block =>
          rw [afterNestedComment?_blanks blank] at step
          obtain ⟨left, ends, same⟩ := Option.map_eq_some_iff.mp step
          exact ⟨left, same.symm, by rw [if_pos block, ends], fun starts => absurd starts line⟩
        next => cases step
      next start =>
        rw [if_neg start]
        split at step
        next separates =>
          exact ⟨cs, (Option.some.inj step).symm, if_pos separates,
            fun starts => absurd starts line⟩
        next => cases step

theorem skipSeparators_blanks (blank : ∀ c ∈ blanks, isBlank c = true)
    (skipped : skipSeparators (xs ++ blanks) = []) : skipSeparators xs = [] := by
  generalize long : xs.length = n
  induction n using Nat.strongRecOn generalizing xs with
  | ind n ih =>
    by_cases empty : xs = []
    · rw [empty]
      rfl
    cases step : separatorStep? (xs ++ blanks) with
    | none =>
      rw [skipSeparators_of_none step, List.append_eq_nil_iff] at skipped
      exact absurd skipped.1 empty
    | some rest =>
      rw [skipSeparators_of_some step] at skipped
      rcases separatorStep?_blanks blank empty step with ⟨-, -, last⟩ | ⟨left, rfl, next, -⟩
      · exact skipSeparators_of_some last
      · have short := (takes_separatorStep? _ _ next).length_lt
        rw [skipSeparators_of_some next]
        exact ih left.length (by omega) skipped rfl

end

/-- Where a text has nothing but separators it has nothing else without the blanks at its end. -/
theorem skipSeparators_trimEnd {cs : List Char} (skipped : skipSeparators cs = []) :
    skipSeparators (trimEnd cs) = [] := by
  obtain ⟨blanks, whole, each⟩ := trimEnd_eq cs
  rw [whole] at skipped
  exact skipSeparators_blanks each skipped

end MacroExpansion.Text

namespace MacroExpansion.Token

open Text Lexeme

/-- Without the separators in front of it a text has its lexemes. -/
theorem Scans.without_separators {here : Position} {front cs : List Char}
    {found : List PlacedLexeme} (scans : Scans here (front ++ cs) found)
    (skipped : skipSeparators cs = skipSeparators (front ++ cs)) :
    Scans (here.after front) cs found := by
  generalize all : front ++ cs = whole at scans skipped
  cases scans with
  | done nothing => exact .done (skipped.trans nothing)
  | @step _ _ blank taken rest lexemes later text stuck read after =>
    obtain ⟨inner, behind⟩ := skipSeparators_suffix cs
    rw [skipped, stuck] at behind
    obtain rfl : front ++ inner = blank := by
      rw [← all, ← behind, ← List.append_assoc] at text
      exact List.append_cancel_right text
    rw [Position.after_append] at after ⊢
    exact .step behind.symm (skipped.trans stuck) read after

/-- A semicolon is a lexeme of its own, and forms no operator with separators. -/
theorem scans_semicolon {rest : List Char} (skipped : skipSeparators rest = []) (here : Position) :
    Scans here (';' :: rest) [⟨.punct ';' false, ⟨here, here.next ';'⟩⟩] := by
  have read : next? (';' :: rest) = some ([.punct ';' (startsPunctuation rest)], rest) := rfl
  rw [startsPunctuation_of_skipped skipped] at read
  have stays : skipSeparators (';' :: rest) = [';'] ++ rest :=
    skipSeparators_stop List.mem_cons_self rest
  exact .step (show ';' :: rest = [] ++ ([';'] ++ rest) from rfl) stays read (.done skipped)

end MacroExpansion.Token

namespace MacroExpansion.TokenTree

open Token Text

/-! ## Tokens -/

/-- A text has its tokens without the blanks at its start. -/
theorem ofText?_trimStart {cs : List Char} {ts : List TokenTree} (found : ofText? cs = some ts) :
    ∃ us, ofText? (trimStart cs) = some us ∧ unplacedAll us = unplacedAll ts := by
  obtain ⟨mark, code, lexemes, rfl, marked, scans, reads⟩ := ofText?_eq_some found
  rcases marked with rfl | rfl
  · have skipped := skipSeparators_trimStart code
    obtain ⟨blanks, whole⟩ : ∃ blanks, blanks ++ trimStart code = code :=
      List.dropWhile_suffix isBlank
    rw [← whole] at scans
    nth_rewrite 2 [← whole] at skipped
    obtain ⟨moved, scansMoved, alike⟩ := (scans.without_separators skipped).relocate .origin
    obtain ⟨us, readsMoved, alikeTrees⟩ := reads.relocate alike
    have bare : ([] : List Char) = [] ∨ [] = [byteOrderMark] := .inl rfl
    exact ⟨us, ofText?_of_scans bare scansMoved readsMoved, unplacedAll_of_moved alikeTrees⟩
  · have kept : trimStart ([byteOrderMark] ++ code) = [byteOrderMark] ++ code :=
      List.dropWhile_cons_of_neg (by decide)
    exact ⟨ts, kept ▸ found, rfl⟩

/-- A text that ends with a semicolon has its tokens without the blanks at its end. -/
theorem ofText?_trimEnd {cs : List Char} {ts : List TokenTree} {joint : Bool} {extent : Extent}
    (found : ofText? cs = some (ts ++ [.punct ';' joint extent])) :
    ofText? (trimEnd cs) = some (ts ++ [.punct ';' joint extent]) := by
  obtain ⟨mark, code, lexemes, rfl, marked, scans, reads⟩ := ofText?_eq_some found
  have final := reads.last_punct List.getLast?_concat
  obtain ⟨before, rfl⟩ := List.getLast?_eq_some_iff.mp final
  obtain rfl : joint = false := scans.last_apart final (by decide)
  obtain ⟨front, rest, rfl, rfl, behind, scansTo⟩ := scans.split (c := ';') rfl
  have skipped := skipSeparators_trimEnd behind.skipped
  have alone : ScansTo [';'] _ front before := scansTo.cut (.behind List.mem_cons_self rest)
  have trimmed := (alone.goesOn (.semicolon (trimEnd rest))
    (skipSeparators_stop List.mem_cons_self [])).append (scans_semicolon skipped _)
  have whole : trimEnd (mark ++ (front ++ ';' :: rest)) =
      mark ++ (front ++ ';' :: trimEnd rest) := by
    rw [← List.append_assoc, trimEnd_append_cons (not_blank (by simp)), List.append_assoc]
  rw [whole]
  exact ofText?_of_scans marked trimmed reads

end MacroExpansion.TokenTree
