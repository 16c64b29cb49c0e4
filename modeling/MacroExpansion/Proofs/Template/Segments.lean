import Mathlib.Data.List.Infix
import MacroExpansion.Template

/-!
# Segments of a template

Where the placeholder stands in a template is found by a search from left to right that does not
look into an occurrence again. Main statement: the search finds the only way to write the template
as segments with the placeholder between them, none of which holds the placeholder where it does not
end; and each copy is the same segments with an argument between them.
-/
namespace MacroExpansion.Template

/-- The mark stands nowhere but at the end of a text that has it put behind it. -/
def OnlyAtEnd (mark s : List Char) : Prop :=
  ∀ before after, s ++ mark = before ++ mark ++ after → after = []

/-- Segments divide a text at a mark. -/
structure Divides (mark text : List Char) (ss : List (List Char)) : Prop where
  nonempty : ss ≠ []
  /-- With the mark between them they are the text. -/
  whole : mark.intercalate ss = text
  /-- A segment that the mark follows holds no mark, nor does one begin in it. -/
  followed : ∀ s ∈ ss.dropLast, OnlyAtEnd mark s
  /-- The last segment holds no mark. -/
  last : ∀ s, ss.getLast? = some s → ¬ mark <:+: s

section
variable {mark : List Char}

theorem onlyAtEnd_nil : OnlyAtEnd mark [] := by
  intro before after same
  have lengths := congrArg List.length same
  simp only [List.nil_append, List.length_append] at lengths
  exact List.eq_nil_of_length_eq_zero (by omega)

theorem onlyAtEnd_cons {c : Char} {s : List Char} :
    OnlyAtEnd mark (c :: s) ↔ ¬ mark <+: c :: (s ++ mark) ∧ OnlyAtEnd mark s := by
  constructor
  · intro only
    refine ⟨fun ⟨after, starts⟩ => ?_, fun before after same => ?_⟩
    · have ended : after = [] := only [] after (by simpa using starts.symm)
      have lengths := congrArg List.length starts
      simp only [ended, List.append_nil, List.length_cons, List.length_append] at lengths
      omega
    · exact only (c :: before) after (by simpa using same)
  · rintro ⟨unmarked, only⟩ before after same
    cases before with
    | nil => exact absurd ⟨after, by simpa using same.symm⟩ unmarked
    | cons b before =>
      simp only [List.cons_append, List.cons.injEq] at same
      exact only before after same.2

/-- A text that holds a mark has a first one. -/
theorem exists_first {text : List Char} (held : mark <:+: text) :
    ∃ s rest, text = s ++ (mark ++ rest) ∧ OnlyAtEnd mark s := by
  induction text with
  | nil =>
    obtain rfl := List.infix_nil.mp held
    exact ⟨[], [], rfl, onlyAtEnd_nil⟩
  | cons c cs ih =>
    by_cases starts : mark <+: c :: cs
    · obtain ⟨rest, same⟩ := starts
      exact ⟨[], rest, same.symm, onlyAtEnd_nil⟩
    · have later : mark <:+: cs := (List.infix_cons_iff.mp held).resolve_left starts
      obtain ⟨s, rest, rfl, only⟩ := ih later
      refine ⟨c :: s, rest, rfl, onlyAtEnd_cons.mpr ⟨fun early => starts ?_, only⟩⟩
      exact early.trans ⟨rest, by simp⟩

/-- What is left of an occurrence is skipped. -/
theorem segmentsFrom_skip (skipped rest : List Char) :
    segmentsFrom mark skipped.length (skipped ++ rest) = segmentsFrom mark 0 rest := by
  induction skipped with
  | nil => rfl
  | cons c skipped ih => simpa [segmentsFrom] using ih

/-- A text without the mark is one segment. -/
theorem segments_of_unmarked {text : List Char} (unmarked : ¬ mark <:+: text) :
    segments mark text = [text] := by
  induction text with
  | nil => rfl
  | cons c cs ih =>
    rw [List.infix_cons_iff, not_or] at unmarked
    have later : segmentsFrom mark 0 cs = [cs] := ih unmarked.2
    simp only [segments, segmentsFrom, List.isPrefixOf_iff_prefix, if_neg unmarked.1, later,
      extendFirst]

/-- Up to the first mark is one segment, and the search goes on behind that mark. -/
theorem segments_append (filled : mark ≠ []) {s : List Char} (only : OnlyAtEnd mark s)
    (rest : List Char) : segments mark (s ++ (mark ++ rest)) = s :: segments mark rest := by
  induction s with
  | nil =>
    cases mark with
    | nil => exact absurd rfl filled
    | cons m ms =>
      have starts : m :: ms <+: m :: (ms ++ rest) := ⟨rest, rfl⟩
      have behind : segmentsFrom (m :: ms) ms.length (ms ++ rest) = segments (m :: ms) rest :=
        segmentsFrom_skip ms rest
      simpa only [segments, List.nil_append, List.cons_append, segmentsFrom,
        List.isPrefixOf_iff_prefix, if_pos starts, List.length_cons, Nat.add_sub_cancel,
        List.cons.injEq, true_and] using behind
  | cons c s ih =>
    obtain ⟨unmarked, only⟩ := onlyAtEnd_cons.mp only
    -- A mark at `c` would be seen without what follows the mark that is there.
    have other : ¬ mark <+: c :: (s ++ (mark ++ rest)) := fun early => by
      refine unmarked (List.prefix_of_prefix_length_le early ⟨rest, by simp⟩ ?_)
      simp only [List.length_cons, List.length_append]
      omega
    have later : segmentsFrom mark 0 (s ++ (mark ++ rest)) = s :: segmentsFrom mark 0 rest :=
      ih only
    simp only [segments, List.cons_append, segmentsFrom, List.isPrefixOf_iff_prefix, if_neg other,
      later, extendFirst]

theorem divides_singleton {s : List Char} : Divides mark s [s] ↔ ¬ mark <:+: s := by
  refine ⟨fun divides => divides.last s rfl, fun unmarked => ⟨by simp, by simp, by simp, ?_⟩⟩
  simpa using unmarked

theorem divides_cons {s text : List Char} {ss : List (List Char)} (more : ss ≠ []) :
    Divides mark text (s :: ss) ↔
      OnlyAtEnd mark s ∧ ∃ rest, text = s ++ (mark ++ rest) ∧ Divides mark rest ss := by
  have joined : mark.intercalate (s :: ss) = s ++ (mark ++ mark.intercalate ss) := by
    rw [List.intercalate_cons_of_ne_nil more, List.append_assoc]
  have ends : (s :: ss).dropLast = s :: ss.dropLast := List.dropLast_cons_of_ne_nil more
  have same : (s :: ss).getLast? = ss.getLast? := by
    obtain ⟨t, ts, rfl⟩ := List.exists_cons_of_ne_nil more
    rfl
  constructor
  · intro divides
    refine ⟨divides.followed s (by simp [ends]), _, joined ▸ divides.whole.symm, more, rfl,
      fun t member => divides.followed t (by simp [ends, member]), fun t found => ?_⟩
    exact divides.last t (same.trans found)
  · rintro ⟨only, rest, rfl, divides⟩
    refine ⟨by simp, by rw [joined, divides.whole], fun t member => ?_, fun t found => ?_⟩
    · rw [ends, List.mem_cons] at member
      rcases member with rfl | member
      · exact only
      · exact divides.followed t member
    · exact divides.last t (same.symm.trans found)

/-- What divides a text is found. -/
theorem Divides.segments_eq (filled : mark ≠ []) {text : List Char} {ss : List (List Char)}
    (divides : Divides mark text ss) : segments mark text = ss := by
  induction ss generalizing text with
  | nil => exact absurd rfl divides.nonempty
  | cons s ss ih =>
    by_cases more : ss = []
    · subst more
      obtain rfl : s = text := by simpa using divides.whole
      exact segments_of_unmarked (divides_singleton.mp divides)
    · obtain ⟨only, rest, rfl, behind⟩ := (divides_cons more).mp divides
      rw [segments_append filled only, ih behind]

/-- What is found divides the text. -/
theorem divides_segments (filled : mark ≠ []) (text : List Char) :
    Divides mark text (segments mark text) := by
  induction length : text.length using Nat.strong_induction_on generalizing text with
  | _ n ih =>
    by_cases held : mark <:+: text
    · obtain ⟨s, rest, rfl, only⟩ := exists_first held
      have shorter : rest.length < n := by
        have positive := List.length_pos_of_ne_nil filled
        simp only [List.length_append] at length
        omega
      rw [segments_append filled only]
      exact (divides_cons (segmentsFrom_ne_nil _ _ _)).mpr ⟨only, rest, rfl, ih _ shorter rest rfl⟩
    · rw [segments_of_unmarked held]
      exact divides_singleton.mpr held

end

/-! ## Copies -/

theorem paste_nil (mark argument : List Char) : paste mark [] argument = [] := by
  simp [paste, segments, segmentsFrom]

/-- An occurrence of the mark is replaced. -/
theorem paste_mark {mark : List Char} (filled : mark ≠ []) (rest argument : List Char) :
    paste mark (mark ++ rest) argument = argument ++ paste mark rest argument := by
  have first := segments_append filled onlyAtEnd_nil rest
  have more : segments mark rest ≠ [] := segmentsFrom_ne_nil _ _ _
  rw [List.nil_append] at first
  rw [paste, first, List.intercalate_cons_of_ne_nil more]
  rfl

/-- A character at which no mark begins is copied. -/
theorem paste_cons {mark : List Char} {c : Char} {cs : List Char} (unmarked : ¬ mark <+: c :: cs)
    (argument : List Char) : paste mark (c :: cs) argument = c :: paste mark cs argument := by
  obtain ⟨s, ss, found⟩ := List.exists_cons_of_ne_nil (segmentsFrom_ne_nil mark 0 cs)
  simp only [paste, segments, segmentsFrom, List.isPrefixOf_iff_prefix, if_neg unmarked, found,
    extendFirst]
  cases ss with
  | nil => simp
  | cons t ts => simp

/-! ## Placeholders -/

section
variable {name : List Char} (plain : '$' ∉ name)
include plain

/-- A name at the start of a text ends in front of each `$`. -/
theorem prefix_before_sign {xs ys : List Char} (starts : name <+: xs ++ '$' :: ys) :
    name <+: xs := by
  rcases List.prefix_or_prefix_of_prefix starts (List.prefix_append xs _) with
    within | ⟨beyond, rfl⟩
  · exact within
  · cases beyond with
    | nil => simp
    | cons c beyond =>
      rw [List.prefix_append_right_inj, List.cons_prefix_cons] at starts
      exact absurd (by simp [starts.1]) plain

/-- No placeholder reaches over a `$`. -/
theorem paste_append_sign (xs ys argument : List Char) :
    paste ('$' :: name) (xs ++ '$' :: ys) argument =
      paste ('$' :: name) xs argument ++ paste ('$' :: name) ('$' :: ys) argument := by
  induction length : xs.length using Nat.strong_induction_on generalizing xs with
  | _ n ih =>
    cases xs with
    | nil => simp [paste_nil]
    | cons c cs =>
      by_cases starts : '$' :: name <+: c :: cs
      · obtain ⟨rest, same⟩ := starts
        have filled : '$' :: name ≠ [] := List.cons_ne_nil _ _
        have shorter : rest.length < n := by
          rw [← same] at length
          simp only [List.length_append, List.length_cons] at length
          omega
        rw [← same, List.append_assoc, paste_mark filled, paste_mark filled, ih _ shorter rest rfl,
          List.append_assoc]
      · have other : ¬ '$' :: name <+: c :: (cs ++ '$' :: ys) := by
          rw [List.cons_prefix_cons] at starts ⊢
          exact fun ⟨first, later⟩ => starts ⟨first, prefix_before_sign plain later⟩
        have shorter : cs.length < n := by
          simp only [List.length_cons] at length
          omega
        rw [List.cons_append, paste_cons other, paste_cons starts, ih _ shorter cs rfl,
          List.cons_append]

/-- A `$` that the name follows is replaced with it. -/
theorem paste_occurrence (xs ys argument : List Char) :
    paste ('$' :: name) (xs ++ '$' :: (name ++ ys)) argument =
      paste ('$' :: name) xs argument ++ (argument ++ paste ('$' :: name) ys argument) := by
  rw [paste_append_sign plain, ← List.cons_append, paste_mark (List.cons_ne_nil _ _)]

/-- A `$` that the name does not follow stays. -/
theorem paste_other_sign {ys : List Char} (other : ¬ name <+: ys) (xs argument : List Char) :
    paste ('$' :: name) (xs ++ '$' :: ys) argument =
      paste ('$' :: name) xs argument ++ '$' :: paste ('$' :: name) ys argument := by
  have unmarked : ¬ '$' :: name <+: '$' :: ys := fun starts =>
    other (List.cons_prefix_cons.mp starts).2
  rw [paste_append_sign plain, paste_cons unmarked]

omit plain in
/-- A `$` behind a text that holds none. -/
theorem append_before_sign {free rest us vs : List Char} (signless : '$' ∉ free)
    (same : free ++ rest = us ++ '$' :: vs) :
    ∃ later, us = free ++ later ∧ rest = later ++ '$' :: vs := by
  rcases List.append_eq_append_iff.mp same with ⟨later, rfl, behind⟩ | ⟨inner, rfl, behind⟩
  · exact ⟨later, rfl, behind⟩
  · cases inner with
    | nil => exact ⟨[], by simp, by simpa using behind.symm⟩
    | cons c inner =>
      obtain ⟨rfl, -⟩ := List.cons.inj behind
      simp at signless

/-- The `$`s of a copy for an argument without any are those of the template that stay. -/
theorem paste_eq_append_sign_iff {text argument : List Char} (free : '$' ∉ argument)
    {us vs : List Char} : paste ('$' :: name) text argument = us ++ '$' :: vs ↔
      ∃ xs ys, text = xs ++ '$' :: ys ∧ ¬ name <+: ys ∧ us = paste ('$' :: name) xs argument ∧
        vs = paste ('$' :: name) ys argument := by
  refine ⟨fun copied => ?_, fun ⟨xs, ys, same, other, before, after⟩ => ?_⟩
  · induction length : text.length using Nat.strong_induction_on generalizing text us with
    | _ n ih =>
      cases text with
      | nil =>
        rw [paste_nil] at copied
        simp at copied
      | cons c cs =>
        by_cases starts : '$' :: name <+: c :: cs
        · obtain ⟨rest, same⟩ := starts
          have shorter : rest.length < n := by
            rw [← same] at length
            simp only [List.length_append, List.length_cons] at length
            omega
          rw [← same, paste_mark (List.cons_ne_nil _ _)] at copied
          obtain ⟨later, rfl, behind⟩ := append_before_sign free copied
          obtain ⟨xs, ys, rfl, other, rfl, rfl⟩ := ih _ shorter behind rfl
          refine ⟨'$' :: (name ++ xs), ys, by rw [← same]; simp, other, ?_, rfl⟩
          rw [← List.cons_append, paste_mark (List.cons_ne_nil _ _)]
        · rw [paste_cons starts] at copied
          cases us with
          | nil =>
            obtain ⟨rfl, rfl⟩ := List.cons.inj copied
            refine ⟨[], cs, rfl, fun more => starts (List.cons_prefix_cons.mpr ⟨rfl, more⟩),
              ?_, rfl⟩
            rw [paste_nil]
          | cons u us =>
            obtain ⟨rfl, behind⟩ := List.cons.inj copied
            have shorter : cs.length < n := by
              simp only [List.length_cons] at length
              omega
            obtain ⟨xs, ys, rfl, other, rfl, rfl⟩ := ih _ shorter behind rfl
            refine ⟨c :: xs, ys, rfl, other, (paste_cons (fun early => starts ?_) _).symm, rfl⟩
            exact early.trans ⟨'$' :: ys, rfl⟩
  · rw [same, before, after]
    exact paste_other_sign plain other xs argument

end

theorem placeholder_ne_nil (binding : Ident) : placeholder binding ≠ [] :=
  List.cons_ne_nil _ _

/-- A template can be divided at its placeholder in one way only. The copy for an argument is the
same segments whatever the argument, with the argument between them, and the copies are joined by
blank lines. -/
theorem instantiate_eq_segments_joined (template : List Char) (binding : Ident) :
    ∃ ss, (∀ other, Divides (placeholder binding) template other ↔ other = ss) ∧
      ∀ arguments, instantiate template binding arguments =
        ['\n', '\n'].intercalate (arguments.map fun argument => argument.intercalate ss) := by
  refine ⟨segments (placeholder binding) template, fun other => ⟨fun divides => ?_, ?_⟩,
    fun arguments => rfl⟩
  · exact (divides.segments_eq (placeholder_ne_nil binding)).symm
  · rintro rfl
    exact divides_segments (placeholder_ne_nil binding) template

/-- A name that is not spelled at all, and arguments that hold the placeholder. -/
example :
    let binding : Ident := ⟨""⟩
    segments (placeholder binding) "a$$b".toList = ["a".toList, [], "b".toList] ∧
      instantiate "a$$b".toList binding ["$".toList, []] = "a$$b\n\nab".toList := by
  decide +kernel

end MacroExpansion.Template
