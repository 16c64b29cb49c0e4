import MacroExpansion.Ident
import MacroExpansion.Proofs.Token.Comment
import MacroExpansion.Proofs.Token.Number
import MacroExpansion.Proofs.Token.Quoted

/-!
# Lexemes in front of a cut

If the lexeme at the start of a text ends before a closing delimiter, a semicolon or a line break,
then it is the one that is read where the text is cut off there, and so it is if it ends before a
word behind which the text goes on in another way. So are the separators before it, and the doc
comments unless the cut is made at a line break. The four kinds of lexemes are told apart by how
they start, so nothing else is read there either.
-/
namespace MacroExpansion.Token

open Text Lexeme

/-! ## Starts -/

variable {k : List Char}

theorem startsLiteral_cut (follows : Follows k) (xs : List Char) :
    startsLiteral (xs ++ k) = startsLiteral xs := by
  have free : ∀ start ∈ literalStarts, ∀ c ∈ stops, c ∉ start := by
    have each : ∀ start ∈ literalStarts, stops.all (!start.contains ·) = true := by decide
    exact fun start member c stop => by simpa using List.all_eq_true.mp (each start member) c stop
  unfold startsLiteral
  rw [Bool.eq_iff_iff, List.any_eq_true, List.any_eq_true]
  constructor
  · rintro ⟨start, member, found⟩
    exact ⟨start, member, by rwa [isPrefixOf_cut (free start member) follows] at found⟩
  · rintro ⟨start, member, found⟩
    exact ⟨start, member, by rwa [isPrefixOf_cut (free start member) follows]⟩

theorem startsComment_eq (cs : List Char) :
    startsComment cs = (['/', '/'].isPrefixOf cs || ['/', '*'].isPrefixOf cs) := by
  fun_cases startsComment cs with
  | case1 => rfl
  | case2 => rfl
  | case3 _ line block =>
    rw [isPrefixOf_absent line, isPrefixOf_absent block]
    rfl

theorem startsComment_unmarked (unmarked : Unmarked k) (xs : List Char) :
    startsComment (xs ++ k) = startsComment xs := by
  rw [startsComment_eq, startsComment_eq, isPrefixOf_unmarked (by decide) unmarked,
    isPrefixOf_unmarked (by decide) unmarked]

/-- Of the stops only a semicolon is punctuation, and it is not cut off; a word is none. -/
theorem startsPunctuation_swap {full cut : List Char} (swaps : Swaps full cut)
    (xs : List Char) : startsPunctuation (xs ++ full) = startsPunctuation (xs ++ cut) := by
  unfold startsPunctuation
  rw [startsComment_unmarked swaps.unmarked.1, startsComment_unmarked swaps.unmarked.2]
  cases xs with
  | nil =>
    cases swaps with
    | cut cuts =>
      cases cuts with
      | before member post =>
        have plain : ends.all (!punctuation.contains ·) = true := by decide
        have other := List.all_eq_true.mp plain _ member
        rw [Bool.not_eq_true'] at other
        simp [other, -List.contains_eq_mem]
      | behind => rfl
    | word => rfl
  | cons c cs => rfl

/-! ## Names and punctuation -/

theorem takes_afterName? : Takes afterName? := by
  intro cs rest read
  unfold afterName? at read
  split at read
  next cs =>
    have named : afterIdentifier? cs = some rest := (Option.filter_eq_some_iff.mp read).1
    exact (takes_afterIdentifier?.leaves cs rest named).trans (List.suffix_cons '#' cs)
  next => exact takes_afterIdentifier? cs rest read

theorem stops_afterName? : Stops afterName? := by
  intro k follows xs
  have plain := stops_afterIdentifier? follows
  cases xs with
  | nil =>
    have first := plain []
    have other : ∀ c ∈ stops, c ≠ 'r' := of_stops (by decide)
    obtain ⟨member, post⟩ := follows
    simpa [afterName?, other _ member] using first
  | cons c cs =>
    by_cases raw : c = 'r'
    · subst raw
      cases cs with
      | nil =>
        have first := plain ['r']
        have other : ∀ c ∈ stops, c ≠ '#' := of_stops (by decide)
        obtain ⟨member, post⟩ := follows
        simpa [afterName?, other _ member] using first
      | cons d cs =>
        by_cases mark : d = '#'
        · subst mark
          simp only [List.cons_append, afterName?, plain cs]
          cases named : afterIdentifier? cs with
          | none => rfl
          | some rest =>
            have left := takes_afterIdentifier?.leaves cs rest named
            simp only [Option.map_some, Option.filter_some, consumed_cut left]
            split <;> rfl
        simpa [afterName?, mark] using plain ('r' :: d :: cs)
    · simpa [afterName?, raw] using plain (c :: cs)

theorem startsLifetime_cut (follows : Follows k) (xs : List Char) :
    startsLifetime (xs ++ k) = startsLifetime xs := by
  unfold startsLifetime
  rw [stops_afterName? follows, isPrefixOf_cut (of_stops (by decide)) follows]
  rcases afterName? xs with _ | _ | ⟨c, rest⟩
  · rfl
  · have other : ∀ c ∈ stops, c ≠ '\'' ∧ c ≠ '#' := of_stops (by decide)
    obtain ⟨member, post⟩ := follows
    obtain ⟨quote, mark⟩ := other _ member
    simp [quote, mark]
  · by_cases quote : c = '\''
    · subst quote
      rfl
    by_cases mark : c = '#'
    · subst mark
      rfl
    · simp [quote, mark]

/-! ## How the kinds start -/

theorem afterIdentifier?_start {c : Char} {cs rest : List Char}
    (read : afterIdentifier? (c :: cs) = some rest) : isIdentifierStart c := by
  rw [afterIdentifier?] at read
  split at read
  next letter => exact letter
  next => cases read

theorem afterName?_start {c : Char} {cs rest : List Char}
    (read : afterName? (c :: cs) = some rest) : isIdentifierStart c := by
  unfold afterName? at read
  split at read
  next same =>
    cases same
    decide
  next => exact afterIdentifier?_start read

theorem not_digit_of_start {c : Char} (letter : isIdentifierStart c) : ¬ c.isDigit := by
  intro digit
  have bounds : '0'.toNat ≤ c.toNat ∧ c.toNat ≤ '9'.toNat := by
    simpa [Char.isDigit, UInt32.le_iff_toNat_le] using digit
  have digits : ∀ n ≤ '9'.toNat, '0'.toNat ≤ n → isIdentifierStart (Char.ofNat n) = false := by
    decide
  have noStart := digits c.toNat bounds.2 bounds.1
  rw [Char.ofNat_toNat, letter] at noStart
  cases noStart

theorem startsLiteral_start {c : Char} {cs : List Char} (starts : startsLiteral (c :: cs)) :
    isIdentifierStart c := by
  obtain ⟨start, member, found⟩ := List.any_eq_true.mp starts
  have letters : ∀ start ∈ literalStarts, start.head?.any isIdentifierStart := by decide
  have letter := letters start member
  cases start with
  | nil => cases letter
  | cons d start =>
    rw [List.isPrefixOf_iff_prefix, List.cons_prefix_cons] at found
    rw [← found.1]
    exact letter

theorem afterNumber?_start {c : Char} {cs rest : List Char}
    (read : afterNumber? (c :: cs) = some rest) : c.isDigit := by
  refine Decidable.byContradiction fun other => ?_
  have zero : c ≠ '0' := by
    rintro rfl
    exact other rfl
  have few {value : Nat} (read : digitValue? c = some value) : ¬ value < 10 := by
    unfold digitValue? at read
    rw [if_neg other] at read
    split at read
    · cases read
      omega
    split at read
    · cases read
      omega
    · cases read
  have digits : afterDigits? 10 false (c :: cs) = none := by
    rw [afterDigits?]
    split
    · rfl
    split
    next read => simp [few read]
    · rfl
  have whole : afterWholeDigits? (c :: cs) = none := by
    simpa [afterWholeDigits?, zero] using digits
  have fraction : afterFractionDigits? (c :: cs) = none := by
    rw [afterFractionDigits?, if_neg other]
  rw [afterNumber?, fraction, whole] at read
  cases read

theorem afterRaw?_start {form : QuotedForm} {cs rest : List Char}
    (read : afterRaw? form cs = some rest) :
    ∃ more, cs = '"' :: more ∨ cs = '#' :: '"' :: more ∨ cs = '#' :: '#' :: more := by
  unfold afterRaw? at read
  dsimp only at read
  split at read
  next content opened =>
    cases cs with
    | nil => cases opened
    | cons c cs =>
      by_cases mark : c = '#'
      · subst mark
        cases cs with
        | nil => cases opened
        | cons d cs =>
          by_cases mark : d = '#'
          · exact ⟨cs, .inr (.inr (by rw [mark]))⟩
          · have quote : d :: cs = '"' :: content := by simpa [mark] using opened
            exact ⟨content, .inr (.inl (by rw [quote]))⟩
      · have quote : c :: cs = '"' :: content := by simpa [mark] using opened
        exact ⟨content, .inl quote⟩
  next => cases read

/-- A quoted literal starts with a quote or as no name may. -/
theorem afterQuotes?_start {c : Char} {cs rest : List Char}
    (read : afterQuotes? (c :: cs) = some rest) : c = '"' ∨ c = '\'' ∨ startsLiteral (c :: cs) := by
  unfold afterQuotes? at read
  split at read
  next same => exact .inl (List.cons.inj same).1
  next same =>
    cases same
    obtain ⟨more, rfl | rfl | rfl⟩ := afterRaw?_start read <;>
      exact .inr (.inr (by simp [startsLiteral, literalStarts, List.isPrefixOf]))
  next same =>
    cases same
    exact .inr (.inr (by simp [startsLiteral, literalStarts, List.isPrefixOf]))
  next same =>
    cases same
    obtain ⟨more, rfl | rfl | rfl⟩ := afterRaw?_start read <;>
      exact .inr (.inr (by simp [startsLiteral, literalStarts, List.isPrefixOf]))
  next same =>
    cases same
    exact .inr (.inr (by simp [startsLiteral, literalStarts, List.isPrefixOf]))
  next same =>
    cases same
    exact .inr (.inr (by simp [startsLiteral, literalStarts, List.isPrefixOf]))
  next same =>
    cases same
    obtain ⟨more, rfl | rfl | rfl⟩ := afterRaw?_start read <;>
      exact .inr (.inr (by simp [startsLiteral, literalStarts, List.isPrefixOf]))
  next same => exact .inr (.inl (List.cons.inj same).1)
  next => cases read

theorem literal?_start {c : Char} {cs : List Char} {x : Lexeme × List Char}
    (read : literal? (c :: cs) = some x) :
    c = '"' ∨ c = '\'' ∨ startsLiteral (c :: cs) ∨ c.isDigit := by
  obtain ⟨rest, found, _⟩ := Option.map_eq_some_iff.mp read
  rcases Option.or_eq_some_iff.mp found with found | ⟨_, found⟩
  · obtain ⟨_, quotes, _⟩ := Option.map_eq_some_iff.mp found
    rcases afterQuotes?_start quotes with text | character | starts
    · exact .inl text
    · exact .inr (.inl character)
    · exact .inr (.inr (.inl starts))
  · exact .inr (.inr (.inr (afterNumber?_start found)))

theorem name?_start {c : Char} {cs : List Char} {x : Lexeme × List Char}
    (read : name? (c :: cs) = some x) :
    isIdentifierStart c ∧ startsLiteral (c :: cs) = false := by
  unfold name? at read
  split at read
  next => cases read
  next other =>
    obtain ⟨rest, named, _⟩ := Option.map_eq_some_iff.mp read
    exact ⟨afterName?_start named, by simpa using other⟩

theorem punct?_start {c : Char} {cs : List Char} {x : Lexeme × List Char}
    (read : punct? (c :: cs) = some x) : c ∈ punctuation ∧ (c = '\'' → startsLifetime cs) := by
  by_cases quote : c = '\''
  · subst quote
    rw [punct?] at read
    split at read
    next lifetime => exact ⟨by decide, fun _ => lifetime⟩
    next => cases read
  · rw [punct?] at read
    · split at read
      next starts =>
        rw [startsPunctuation, Bool.and_eq_true] at starts
        exact ⟨by simpa using starts.2, fun same => absurd same quote⟩
      next => cases read
    · exact quote

/-- The characters of delimiters. -/
def delimiters : List Char :=
  ['(', '[', '{', ')', ']', '}']

theorem delimiter?_start {c : Char} {cs : List Char} {x : Lexeme × List Char}
    (read : delimiter? (c :: cs) = some x) : c ∈ delimiters := by
  unfold delimiter? at read
  split at read
  case h_7 => cases read
  all_goals
    next same =>
      cases same
      decide

/-- The name of a lifetime is no character literal. -/
theorem afterCharacter?_of_startsLifetime {cs : List Char} (lifetime : startsLifetime cs) :
    afterCharacter? .text cs = none := by
  cases cs with
  | nil => rfl
  | cons c cs =>
    cases named : afterName? (c :: cs) with
    | none =>
      rw [startsLifetime, named] at lifetime
      cases lifetime
    | some rest =>
      have letter := afterName?_start named
      have escape : c ≠ '\\' := by
        rintro rfl
        cases letter
      rw [afterCharacter?]
      · split
        · cases cs with
          | nil => rfl
          | cons d cs =>
            by_cases quote : d = '\''
            · subst quote
              have stop : isIdentifierPart '\'' = false := by decide
              have ends : afterName? (c :: '\'' :: cs) = some ('\'' :: cs) := by
                simp [afterName?, afterIdentifier?, letter, stop]
              rw [startsLifetime, ends] at lifetime
              cases lifetime
            · simp [afterApostrophe?, quote]
        · rfl
      · exact escape

/-! ## Readers with a value -/

/-- A reader that takes something, and that reads the same before and after a swap that it does not
get to. -/
structure ReadsLocally {α : Type} (f : List Char → Option (α × List Char)) : Prop where
  takes : ∀ cs a rest, f cs = some (a, rest) → Taken cs rest
  same : ∀ ⦃full cut⦄, Swaps full cut → ∀ xs a rest,
    f (xs ++ full) = some (a, rest ++ full) ↔ f (xs ++ cut) = some (a, rest ++ cut)

namespace ReadsLocally

variable {α : Type}

/-- The value of a reader may be made of what it took. -/
theorem of_local {f : List Char → Option (List Char)} (h : Local f) (takes : Takes f)
    (make : List Char → α) : ReadsLocally fun cs =>
      (f cs).map fun rest => (make (consumed cs rest), rest) where
  takes cs a rest read := by
    obtain ⟨_, found, same⟩ := Option.map_eq_some_iff.mp read
    cases same
    exact takes cs rest found
  same full cut swaps xs a rest := by
    have both := swaps.reads h xs rest
    have suffix {k : List Char} (found : f (xs ++ k) = some (rest ++ k)) : rest <:+ xs := by
      obtain ⟨taken, whole⟩ := (takes _ _ found).suffix
      rw [← List.append_assoc] at whole
      exact ⟨taken, List.append_cancel_right whole⟩
    constructor
    · intro read
      obtain ⟨_, found, same⟩ := Option.map_eq_some_iff.mp read
      cases same
      have left := suffix found
      rw [both.mp found, consumed_cut left, ← consumed_cut left cut]
      rfl
    · intro read
      obtain ⟨_, found, same⟩ := Option.map_eq_some_iff.mp read
      cases same
      have left := suffix found
      rw [both.mpr found, consumed_cut left, ← consumed_cut left full]
      rfl

/-- Of two readers that never read both, either may read. -/
theorem or {f g : List Char → Option (α × List Char)} (first : ReadsLocally f)
    (second : ReadsLocally g)
    (apart : ∀ cs x, g cs = some x → f cs = none) : ReadsLocally fun cs => (f cs).or (g cs) where
  takes cs a rest read := by
    rcases Option.or_eq_some_iff.mp read with early | ⟨_, late⟩
    · exact first.takes cs a rest early
    · exact second.takes cs a rest late
  same full cut swaps xs a rest := by
    have early := first.same swaps xs a rest
    have late := second.same swaps xs a rest
    constructor
    · intro read
      rcases Option.or_eq_some_iff.mp read with read | ⟨_, read⟩
      · exact Option.or_eq_some_iff.mpr (.inl (early.mp read))
      · exact Option.or_eq_some_iff.mpr (.inr ⟨apart _ _ (late.mp read), late.mp read⟩)
    · intro read
      rcases Option.or_eq_some_iff.mp read with read | ⟨_, read⟩
      · exact Option.or_eq_some_iff.mpr (.inl (early.mpr read))
      · exact Option.or_eq_some_iff.mpr (.inr ⟨apart _ _ (late.mpr read), late.mpr read⟩)

/-- What a reader refuses for its start, it refuses before and after a swap. -/
theorem guard {f : List Char → Option (α × List Char)} {refused : List Char → Bool}
    (same : ∀ {k}, Follows k → ∀ xs, refused (xs ++ k) = refused xs) (h : ReadsLocally f) :
    ReadsLocally fun cs => if refused cs then none else f cs where
  takes cs a rest read := by
    split at read
    · cases read
    · exact h.takes cs a rest read
  same full cut swaps xs a rest := by
    rw [swaps.same same]
    split
    · simp
    · exact h.same swaps xs a rest

/-- A reader of one character, which may look at what follows it. -/
theorem single {f : List Char → Option (α × List Char)} (nothing : f [] = none)
    {g : Char → List Char → Option α}
    (reads : ∀ c cs, f (c :: cs) = (g c cs).map fun a => (a, cs))
    (same : ∀ {full cut}, Swaps full cut → ∀ c xs,
      g c (xs ++ full) = g c (xs ++ cut)) : ReadsLocally f := by
  have takes (cs : List Char) (a : α) (rest : List Char) (read : f cs = some (a, rest)) :
      Taken cs rest := by
    cases cs with
    | nil =>
      rw [nothing] at read
      cases read
    | cons c cs =>
      rw [reads] at read
      obtain ⟨_, _, made⟩ := Option.map_eq_some_iff.mp read
      cases made
      exact List.suffix_refl rest
  -- nothing is read off what follows
  have never (k : List Char) (a : α) (rest : List Char) :
      f k ≠ some (a, rest ++ k) := fun read => by
    have short := (takes _ _ _ read).length_lt
    rw [List.length_append] at short
    omega
  refine ⟨takes, fun full cut swaps xs a rest => ?_⟩
  cases xs with
  | nil => exact ⟨fun read => absurd read (never _ a rest),
      fun read => absurd read (never _ a rest)⟩
  | cons c cs =>
    rw [List.cons_append, List.cons_append, reads, reads, same swaps]
    cases g c (cs ++ cut) <;> simp

end ReadsLocally

theorem local_name? : ReadsLocally name? :=
  .guard startsLiteral_cut (.of_local stops_afterName?.local takes_afterName? fun taken =>
    ident (String.ofList taken))

theorem local_literal? : ReadsLocally literal? := by
  have same : literal? = fun cs => ((afterQuotedLiteral? cs).map fun rest =>
        (literal (String.ofList (consumed cs rest)), rest)).or
      ((afterNumber? cs).map fun rest => (literal (String.ofList (consumed cs rest)), rest)) := by
    funext cs
    exact Option.map_or
  have quoted := ReadsLocally.of_local local_afterQuotedLiteral?
    takes_afterQuotedLiteral? fun taken =>
    literal (String.ofList taken)
  have number := ReadsLocally.of_local stops_afterNumber?.local takes_afterNumber? fun taken =>
    literal (String.ofList taken)
  rw [same]
  refine quoted.or number fun cs x read => ?_
  obtain ⟨rest, found, _⟩ := Option.map_eq_some_iff.mp read
  cases cs with
  | nil => rfl
  | cons c cs =>
    have digit := afterNumber?_start found
    cases quotes : afterQuotes? (c :: cs) with
    | none => rw [afterQuotedLiteral?, quotes]; rfl
    | some after =>
      rcases afterQuotes?_start quotes with rfl | rfl | starts
      · cases digit
      · cases digit
      · exact absurd digit (not_digit_of_start (startsLiteral_start starts))

theorem local_punct? : ReadsLocally punct? := by
  refine .single rfl (g := fun c cs =>
    if c = '\'' then if startsLifetime cs then some (punct '\'' true) else none
    else if startsPunctuation (c :: cs) then some (punct c (startsPunctuation cs)) else none) ?_ ?_
  · intro c cs
    by_cases quote : c = '\''
    · subst quote
      simp only [punct?]
      split <;> rfl
    · simp only [punct?, if_neg quote]
      split <;> rfl
  · intro full cut swaps c xs
    have first : startsPunctuation (c :: (xs ++ full)) = startsPunctuation (c :: (xs ++ cut)) :=
      startsPunctuation_swap swaps (c :: xs)
    simp only [swaps.same startsLifetime_cut, first, startsPunctuation_swap swaps]

theorem local_delimiter? : ReadsLocally delimiter? := by
  refine .single rfl (g := fun c _ => (delimiter? [c]).map Prod.fst) ?_ fun _ _ _ => rfl
  intro c cs
  unfold delimiter?
  split <;> simp_all

theorem delimiter?_of_literal? {cs : List Char} {x : Lexeme × List Char}
    (read : literal? cs = some x) : delimiter? cs = none := by
  cases cs with
  | nil => rfl
  | cons c cs =>
    have other : delimiters.all fun c =>
        c ≠ '"' ∧ c ≠ '\'' ∧ !isIdentifierStart c ∧ !c.isDigit := by decide
    refine Option.eq_none_iff_forall_ne_some.mpr fun y marked => ?_
    have plain := List.all_eq_true.mp other c (delimiter?_start marked)
    simp only [ne_eq, Bool.not_eq_true', decide_eq_true_eq] at plain
    obtain ⟨text, character, letter, digit⟩ := plain
    rcases literal?_start read with start | start | start | start
    · exact text start
    · exact character start
    · rw [startsLiteral_start start] at letter
      cases letter
    · rw [start] at digit
      cases digit

theorem unquoted_of_punct? {cs : List Char} {x : Lexeme × List Char} (read : punct? cs = some x) :
    (delimiter? cs).or (literal? cs) = none := by
  cases cs with
  | nil => rfl
  | cons c cs =>
    obtain ⟨member, lifetime⟩ := punct?_start read
    have other : punctuation.all fun c =>
        c ≠ '"' ∧ !isIdentifierStart c ∧ !c.isDigit ∧ c ∉ delimiters := by decide
    have plain := List.all_eq_true.mp other c member
    simp only [ne_eq, Bool.not_eq_true', decide_eq_true_eq] at plain
    obtain ⟨text, letter, digit, undelimited⟩ := plain
    rw [Option.or_eq_none_iff]
    refine ⟨Option.eq_none_iff_forall_ne_some.mpr fun y marked =>
      undelimited (delimiter?_start marked), ?_⟩
    refine Option.eq_none_iff_forall_ne_some.mpr fun y quoted => ?_
    rcases literal?_start quoted with start | rfl | start | start
    · exact text start
    · have number : afterNumber? ('\'' :: cs) = none := rfl
      have character := afterCharacter?_of_startsLifetime (lifetime rfl)
      simp [literal?, afterLiteral?, afterQuotedLiteral?, afterQuotes?, character, number] at quoted
    · rw [startsLiteral_start start] at letter
      cases letter
    · rw [start] at digit
      cases digit

theorem unmarked_of_name? {cs : List Char} {x : Lexeme × List Char} (read : name? cs = some x) :
    ((delimiter? cs).or (literal? cs)).or (punct? cs) = none := by
  cases cs with
  | nil => rfl
  | cons c cs =>
    obtain ⟨letter, free⟩ := name?_start read
    have other : (delimiters ++ punctuation).all fun c => !isIdentifierStart c := by decide
    have unmarked : c ∉ delimiters ++ punctuation := fun member => by
      have plain := List.all_eq_true.mp other c member
      rw [letter] at plain
      cases plain
    rw [Option.or_eq_none_iff, Option.or_eq_none_iff]
    refine ⟨⟨?_, ?_⟩, ?_⟩
    · refine Option.eq_none_iff_forall_ne_some.mpr fun y marked => ?_
      exact unmarked (List.mem_append_left _ (delimiter?_start marked))
    · refine Option.eq_none_iff_forall_ne_some.mpr fun y quoted => ?_
      rcases literal?_start quoted with rfl | rfl | start | digit
      · cases letter
      · cases letter
      · rw [free] at start
        cases start
      · exact not_digit_of_start letter digit
    · refine Option.eq_none_iff_forall_ne_some.mpr fun y marked => ?_
      exact unmarked (List.mem_append_right _ (punct?_start marked).1)

/-- A lexeme that is no sign of an unreadable token. -/
def readable? (cs : List Char) : Option (Lexeme × List Char) :=
  (((delimiter? cs).or (literal? cs)).or (punct? cs)).or (name? cs)

theorem local_readable? : ReadsLocally readable? :=
  ((local_delimiter?.or local_literal? fun _ _ => delimiter?_of_literal?).or local_punct?
    fun _ _ => unquoted_of_punct?).or local_name? fun _ _ => unmarked_of_name?

theorem plain?_eq (cs : List Char) : plain? cs =
    if unreadable.isPrefixOf cs then
      some (literal (String.ofList unreadable), cs.drop unreadable.length)
    else readable? cs := rfl

theorem takes_plain? {cs rest : List Char} {l : Lexeme} (read : plain? cs = some (l, rest)) :
    Taken cs rest := by
  rw [plain?_eq] at read
  split at read
  next whole =>
    rw [List.isPrefixOf_iff_prefix] at whole
    obtain ⟨more, rfl⟩ := whole
    cases read
    exact List.suffix_append _ more
  next => exact local_readable?.takes cs l rest read

/-- The literal that stands for an unreadable token is read in front of a cut only if it is there as
a whole. -/
theorem plain?_cut {full cut xs rest : List Char} {l : Lexeme} (cuts : Cuts closers full cut)
    (read : plain? (xs ++ full) = some (l, rest ++ full)) :
    plain? (xs ++ cut) = some (l, rest ++ cut) := by
  rw [plain?_eq] at read ⊢
  split at read
  next whole =>
    rw [List.isPrefixOf_iff_prefix] at whole
    obtain ⟨more, same⟩ := whole
    rw [← same, List.drop_left] at read
    obtain ⟨rfl, left⟩ := Prod.mk.inj (Option.some.inj read)
    rw [left, ← List.append_assoc] at same
    rw [← List.append_cancel_right same]
    simp
  next notWhole =>
    obtain ⟨post, rfl⟩ := cuts.whole
    have less : ¬ unreadable.isPrefixOf (xs ++ cut) := by
      rw [List.isPrefixOf_iff_prefix] at notWhole ⊢
      refine fun whole => notWhole (whole.trans ?_)
      rw [← List.append_assoc]
      exact List.prefix_append _ _
    rw [if_neg less]
    exact (local_readable?.same cuts.swaps xs l rest).mp read

/-! ## Names -/

/-- What an identifier is written with. -/
inductive Word : List Char → Prop where
  | mk {c : Char} {cs : List Char} (start : isIdentifierStart c)
      (parts : ∀ d ∈ cs, isIdentifierPart d) :
      Word (c :: cs)

theorem word_of_afterIdentifier? {cs rest : List Char} (read : afterIdentifier? cs = some rest) :
    ∃ word, cs = word ++ rest ∧ Word word := by
  unfold afterIdentifier? at read
  split at read
  next => cases read
  next c cs =>
    split at read
    next letter =>
      cases read
      refine ⟨c :: cs.takeWhile isIdentifierPart, ?_, .mk letter ?_⟩
      · rw [List.cons_append, List.takeWhile_append_dropWhile]
      · exact List.all_eq_true.mp List.all_takeWhile
    next => cases read

/-- What a name in a text stands for is a word. -/
theorem word_of_name? {cs rest : List Char} {spelling : String}
    (read : name? cs = some (.ident spelling, rest)) :
    cs = spelling.toList ++ rest ∧ Word (Ident.ofSpelling spelling).name.toList := by
  unfold name? at read
  split at read
  · cases read
  obtain ⟨rest', named, same⟩ := Option.map_eq_some_iff.mp read
  obtain ⟨same, rfl⟩ := Prod.mk.inj same
  cases same
  unfold afterName? at named
  split at named
  next cs =>
    obtain ⟨word, rfl, words⟩ := word_of_afterIdentifier? (Option.filter_eq_some_iff.mp named).1
    have whole : consumed ('r' :: '#' :: (word ++ rest')) rest' = 'r' :: '#' :: word :=
      consumed_append ('r' :: '#' :: word) rest'
    simp [whole, Ident.ofSpelling, Ident.unraw, words]
  next =>
    obtain ⟨word, rfl, words⟩ := word_of_afterIdentifier? named
    rw [consumed_append]
    refine ⟨by simp, ?_⟩
    have unmarked : Ident.unraw (String.ofList word) = String.ofList word := by
      unfold Ident.unraw
      split
      next cs marked =>
        rw [String.toList_ofList] at marked
        obtain ⟨_, parts⟩ := marked ▸ words
        exact absurd (parts '#' List.mem_cons_self) (by decide)
      next => rfl
    simpa [Ident.ofSpelling, unmarked] using words

/-- A name is the same in front of every stop. -/
theorem name?_cut (follows : Follows k) (xs : List Char) :
    name? (xs ++ k) = (name? xs).map fun (lexeme, rest) => (lexeme, rest ++ k) := by
  unfold name?
  rw [startsLiteral_cut follows, stops_afterName? follows]
  split
  · rfl
  cases named : afterName? xs with
  | none => rfl
  | some rest => simp [consumed_cut (takes_afterName?.leaves xs rest named)]

/-- A name does not end within an identifier. -/
theorem behind_name? {cs rest : List Char} {l : Lexeme} (read : name? cs = some (l, rest)) :
    ∀ c ∈ rest.head?, isIdentifierPart c = false := by
  have behind {cs rest : List Char} (read : afterIdentifier? cs = some rest) :
      ∀ c ∈ rest.head?, isIdentifierPart c = false := by
    unfold afterIdentifier? at read
    split at read
    next => cases read
    next c cs =>
      split at read
      next =>
        cases read
        intro d first
        have stops := List.head?_dropWhile_not isIdentifierPart cs
        rw [Option.mem_def.mp first] at stops
        exact stops
      next => cases read
  unfold name? at read
  split at read
  · cases read
  obtain ⟨_, named, same⟩ := Option.map_eq_some_iff.mp read
  cases same
  unfold afterName? at named
  split at named
  · exact behind (Option.filter_eq_some_iff.mp named).1
  · exact behind named

theorem name?_of_plain? {cs rest : List Char} {spelling : String}
    (read : plain? cs = some (.ident spelling, rest)) :
    name? cs = some (.ident spelling, rest) := by
  rw [plain?_eq] at read
  split at read
  · cases read
  rcases Option.or_eq_some_iff.mp read with read | ⟨_, read⟩
  · rcases Option.or_eq_some_iff.mp read with read | ⟨_, read⟩
    · rcases Option.or_eq_some_iff.mp read with read | ⟨_, read⟩
      · unfold delimiter? at read
        split at read <;> cases read
      · obtain ⟨_, _, same⟩ := Option.map_eq_some_iff.mp read
        cases same
    · unfold punct? at read
      split at read
      · split at read <;> cases read
      · split at read <;> cases read
      · cases read
  · exact read

/-! ## Whatever comes next -/

/-- Where a name is read nothing else is. -/
theorem next?_of_name? {cs rest : List Char} {l : Lexeme} (read : name? cs = some (l, rest)) :
    next? cs = some ([l], rest) := by
  cases cs with
  | nil => cases read
  | cons c cs =>
    have letter := (name?_start read).1
    have undocumented : docComment? (c :: cs) = none := by
      rw [docComment?_eq]
      cases starts : DocForm.of? (c :: cs) with
      | none => rfl
      | some form =>
        obtain ⟨_, _, opened⟩ := DocForm.opening_of_of? starts
        rw [(List.cons.inj opened).1] at letter
        cases letter
    have readable : unreadable.isPrefixOf (c :: cs) = false := by
      refine isPrefixOf_absent fun more same => ?_
      rw [(List.cons.inj same).1] at letter
      cases letter
    rw [next?, undocumented, plain?_eq, readable, readable?, unmarked_of_name? read, read]
    rfl

theorem takes_next? {cs rest : List Char} {lexemes : List Lexeme}
    (read : next? cs = some (lexemes, rest)) : Taken cs rest := by
  unfold next? at read
  split at read
  next doc found =>
    split at read
    · cases read
    · cases read
      exact takes_docComment? found
  next =>
    obtain ⟨⟨lexeme, left⟩, found, same⟩ := Option.map_eq_some_iff.mp read
    cases same
    exact takes_plain? found

/-- What comes next and ends before a cut comes next after it. -/
theorem next?_cut {full cut xs rest : List Char} {lexemes : List Lexeme}
    (cuts : Cuts closers full cut) (read : next? (xs ++ full) = some (lexemes, rest ++ full)) :
    next? (xs ++ cut) = some (lexemes, rest ++ cut) := by
  obtain ⟨told, untold⟩ := agree_docComment? cuts xs
  unfold next? at read ⊢
  split at read
  next doc found =>
    split at read
    · cases read
    next whole =>
      obtain ⟨same, left⟩ := Prod.mk.inj (Option.some.inj read)
      rw [told doc rest found left]
      dsimp only
      rw [if_neg whole, ← same]
      rfl
  next nothing =>
    obtain ⟨⟨lexeme, left⟩, found, same⟩ := Option.map_eq_some_iff.mp read
    cases same
    rw [untold nothing]
    dsimp only
    rw [plain?_cut cuts found]
    rfl

end MacroExpansion.Token
