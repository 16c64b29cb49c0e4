import MacroExpansion.Proofs.Token.Cut

/-!
# Numbers in front of a stop

A number ends in front of a closing delimiter, a semicolon, a separator or a comment at the latest,
and nothing in it asks for more than that something stands behind it.
-/
namespace MacroExpansion.Token

open Text

variable {k : List Char}

theorem isDigitPart_stops : ∀ c ∈ stops, isDigitPart c = false := of_stops (by decide)

theorem dropUnderscores_cut (follows : Follows k) (xs : List Char) :
    dropUnderscores (xs ++ k) = dropUnderscores xs ++ k :=
  dropWhile_cut (of_stops (by decide)) follows xs

theorem dropUnderscores_suffix (cs : List Char) : dropUnderscores cs <:+ cs :=
  List.dropWhile_suffix _

/-! ## Exponents -/

/-- An exponent without its sign. -/
def unsigned (cs : List Char) : List Char :=
  bif cs.head?.any fun c => c == '+' || c == '-' then dropUnderscores cs.tail else cs

/-- What follows the digits of an exponent. -/
def exponentDigits? (cs : List Char) : Option (List Char) :=
  bif cs.head?.any Char.isDigit then some (cs.tail.dropWhile isDigitPart) else none

theorem exponentDigits?_cons (c : Char) (cs : List Char) :
    exponentDigits? (c :: cs) = if c.isDigit then some (cs.dropWhile isDigitPart) else none := by
  rw [exponentDigits?, List.head?_cons, Option.any_some, List.tail_cons, cond_eq_ite]

theorem afterExponent?_eq (cs : List Char) :
    afterExponent? cs = exponentDigits? (unsigned (dropUnderscores cs)) := by
  unfold afterExponent?
  dsimp only
  cases dropUnderscores cs with
  | nil => rfl
  | cons c rest =>
    by_cases plus : c = '+'
    · subst plus
      change _ = exponentDigits? (dropUnderscores rest)
      cases digits : dropUnderscores rest with
      | nil => simp [digits, exponentDigits?]
      | cons d digits' => simp [digits, exponentDigits?_cons]
    by_cases minus : c = '-'
    · subst minus
      change _ = exponentDigits? (dropUnderscores rest)
      cases digits : dropUnderscores rest with
      | nil => simp [digits, exponentDigits?]
      | cons d digits' => simp [digits, exponentDigits?_cons]
    have bare : unsigned (c :: rest) = c :: rest := by
      have other : (c == '+' || c == '-') = false := by simp [plus, minus]
      simp only [unsigned, List.head?_cons, Option.any_some, other, cond_false]
    rw [bare, exponentDigits?_cons]
    simp [plus, minus]

theorem unsigned_cut (follows : Follows k) (xs : List Char) :
    unsigned (xs ++ k) = unsigned xs ++ k := by
  cases xs with
  | nil =>
    have bare : ∀ c ∈ stops, (c == '+' || c == '-') = false := of_stops (by decide)
    obtain ⟨member, post⟩ := follows
    simp [unsigned, bare _ member]
  | cons c cs =>
    simp only [unsigned, List.cons_append, List.head?_cons, Option.any_some, List.tail_cons,
      dropUnderscores_cut follows]
    cases c == '+' || c == '-' <;> rfl

theorem unsigned_suffix (cs : List Char) : unsigned cs <:+ cs := by
  unfold unsigned
  cases cs.head?.any fun c => c == '+' || c == '-' with
  | true => exact (dropUnderscores_suffix _).trans (List.tail_suffix cs)
  | false => exact List.suffix_rfl

theorem stops_exponentDigits? : Stops exponentDigits? := by
  intro k follows xs
  cases xs with
  | nil =>
    have other : ∀ c ∈ stops, c.isDigit = false := of_stops (by decide)
    obtain ⟨member, post⟩ := follows
    simp [exponentDigits?, other _ member]
  | cons c cs =>
    simp only [exponentDigits?, List.cons_append, List.head?_cons, Option.any_some, List.tail_cons,
      dropWhile_cut isDigitPart_stops follows]
    cases c.isDigit <;> rfl

theorem leaves_exponentDigits? : Leaves exponentDigits? := by
  intro cs rest read
  unfold exponentDigits? at read
  cases digit : cs.head?.any Char.isDigit with
  | true =>
    rw [digit] at read
    cases read
    exact (List.dropWhile_suffix _).trans (List.tail_suffix cs)
  | false =>
    rw [digit] at read
    cases read

theorem stops_afterExponent? : Stops afterExponent? := by
  intro k follows xs
  rw [afterExponent?_eq, afterExponent?_eq, dropUnderscores_cut follows, unsigned_cut follows]
  exact stops_exponentDigits? follows _

theorem leaves_afterExponent? : Leaves afterExponent? := by
  intro cs rest read
  rw [afterExponent?_eq] at read
  have digits := leaves_exponentDigits? _ rest read
  exact digits.trans ((unsigned_suffix _).trans (dropUnderscores_suffix cs))

/-! ## Digits -/

theorem endsNumber_cut (follows : Follows k) (xs : List Char) :
    endsNumber (xs ++ k) = endsNumber xs := by
  cases xs with
  | nil =>
    have other : ∀ c ∈ stops, (c == '.') = false := of_stops (by decide)
    obtain ⟨member, post⟩ := follows
    change (_ || _) = false
    rw [other _ member, not_start_of_stops _ member]
    rfl
  | cons c cs => rfl

theorem stops_afterFractionDigits? : Stops afterFractionDigits? := by
  intro k follows xs
  cases xs with
  | nil =>
    have other : ∀ c ∈ stops, c.isDigit = false := of_stops (by decide)
    obtain ⟨member, post⟩ := follows
    simp [afterFractionDigits?, other _ member]
  | cons first cs =>
    rw [List.cons_append, afterFractionDigits?, afterFractionDigits?,
      dropWhile_cut isDigitPart_stops follows]
    by_cases digit : first.isDigit
    · rw [if_pos digit, if_pos digit]
      have mark : ∀ c ∈ stops, isExponentMark c = false := of_stops (by decide)
      have point : ∀ c ∈ stops, c ≠ '.' := of_stops (by decide)
      cases cs.dropWhile isDigitPart with
      | nil =>
        obtain ⟨member, post⟩ := follows
        simp [mark _ member, point _ member]
      | cons c rest =>
        by_cases point : c = '.'
        · subst point
          simp only [List.cons_append, endsNumber_cut follows,
            dropWhile_cut isDigitPart_stops follows]
          split
          · rfl
          cases rest.dropWhile isDigitPart with
          | nil =>
            obtain ⟨member, post⟩ := follows
            simp [mark _ member]
          | cons d exponent =>
            simp only [List.cons_append, stops_afterExponent? follows exponent]
            split
            · cases afterExponent? exponent <;> rfl
            · rfl
        · simp only [List.cons_append, stops_afterExponent? follows rest]
          split <;> rfl
    · rw [if_neg digit, if_neg digit]
      rfl

theorem takes_afterFractionDigits? : Takes afterFractionDigits? := by
  intro cs rest read
  cases cs with
  | nil => cases read
  | cons first cs =>
    have digits : cs.dropWhile isDigitPart <:+ cs := List.dropWhile_suffix _
    rw [afterFractionDigits?] at read
    split at read
    · split at read
      next fraction point =>
        rw [point] at digits
        have left : rest <:+ fraction.dropWhile isDigitPart := by
          split at read
          · cases read
          dsimp only at read
          split at read
          next c exponent more =>
            split at read
            · cases read
              cases found : afterExponent? exponent with
              | none => exact List.suffix_refl _
              | some after =>
                rw [more]
                exact (leaves_afterExponent? exponent after found).trans (List.suffix_cons c _)
            · cases read
              exact List.suffix_refl _
          · cases read
            exact List.nil_suffix
        have point : fraction.dropWhile isDigitPart <:+ '.' :: fraction :=
          (List.dropWhile_suffix _).trans (List.suffix_cons '.' fraction)
        exact left.trans (point.trans digits)
      next c exponent _ more =>
        rw [more] at digits
        split at read
        · exact (leaves_afterExponent? exponent rest read).trans
            ((List.suffix_cons c exponent).trans digits)
        · cases read
      · cases read
    · cases read

theorem stops_afterDigits? (base : Nat) (seen : Bool) : Stops (afterDigits? base seen) := by
  intro k follows xs
  induction xs generalizing seen with
  | nil =>
    have other : ∀ c ∈ stops, digitValue? c = none ∧ c ≠ '_' := of_stops (by decide)
    obtain ⟨member, post⟩ := follows
    obtain ⟨digit, underscore⟩ := other _ member
    simp only [List.nil_append, afterDigits?, digit, underscore, ↓reduceIte]
    cases seen <;> rfl
  | cons c cs ih =>
    rw [List.cons_append, afterDigits?, afterDigits?]
    split
    · split
      · rfl
      · exact ih seen
    split
    · split
      · exact ih true
      split
      · rfl
      split <;> rfl
    · split <;> rfl

theorem leaves_afterDigits? (base : Nat) (seen : Bool) : Leaves (afterDigits? base seen) := by
  intro cs rest read
  induction cs generalizing seen with
  | nil =>
    cases seen <;> cases read
    exact List.suffix_refl []
  | cons c cs ih =>
    have more (seen : Bool) (read : afterDigits? base seen cs = some rest) : rest <:+ c :: cs :=
      (ih seen read).trans (List.suffix_cons c cs)
    have last (read : (if seen then some (c :: cs) else none) = some rest) : rest <:+ c :: cs := by
      cases seen <;> cases read
      exact List.suffix_refl _
    rw [afterDigits?] at read
    split at read
    · split at read
      · cases read
      · exact more seen read
    split at read
    · split at read
      · exact more true read
      split at read
      · cases read
      · exact last read
    · exact last read

/-- A number has a digit. -/
theorem takes_afterDigits? (base : Nat) : Takes (afterDigits? base false) := by
  intro cs rest read
  cases cs with
  | nil => cases read
  | cons c cs =>
    rw [afterDigits?] at read
    split at read
    · split at read
      · cases read
      · exact leaves_afterDigits? base false cs rest read
    split at read
    · split at read
      · exact leaves_afterDigits? base true cs rest read
      split at read <;> cases read
    · cases read

theorem stops_afterWholeDigits? : Stops afterWholeDigits? := by
  intro k follows xs
  have decimal := stops_afterDigits? 10 false follows
  cases xs with
  | nil =>
    have first := decimal []
    have other : ∀ c ∈ stops, c ≠ '0' := of_stops (by decide)
    obtain ⟨member, post⟩ := follows
    simpa [afterWholeDigits?, other _ member] using first
  | cons c cs =>
    by_cases zero : c = '0'
    · subst zero
      cases cs with
      | nil =>
        have first := decimal ['0']
        have other : ∀ c ∈ stops, c ≠ 'x' ∧ c ≠ 'o' ∧ c ≠ 'b' := of_stops (by decide)
        obtain ⟨member, post⟩ := follows
        obtain ⟨hexadecimal, octal, binary⟩ := other _ member
        simpa [afterWholeDigits?, hexadecimal, octal, binary] using first
      | cons d cs =>
        by_cases hexadecimal : d = 'x'
        · subst hexadecimal
          exact stops_afterDigits? 16 false follows cs
        by_cases octal : d = 'o'
        · subst octal
          exact stops_afterDigits? 8 false follows cs
        by_cases binary : d = 'b'
        · subst binary
          exact stops_afterDigits? 2 false follows cs
        simpa [afterWholeDigits?, hexadecimal, octal, binary] using decimal ('0' :: d :: cs)
    · simpa [afterWholeDigits?, zero] using decimal (c :: cs)

theorem takes_afterWholeDigits? : Takes afterWholeDigits? := by
  have marked (base : Nat) (c : Char) {cs rest : List Char}
      (read : afterDigits? base false cs = some rest) : Taken ('0' :: c :: cs) rest :=
    (leaves_afterDigits? base false cs rest read).trans (List.suffix_cons c cs)
  intro cs rest read
  unfold afterWholeDigits? at read
  split at read
  · exact marked 16 'x' read
  · exact marked 8 'o' read
  · exact marked 2 'b' read
  · exact takes_afterDigits? 10 cs rest read

theorem stops_afterNumberSuffix? : Stops afterNumberSuffix? := by
  intro k follows xs
  have suffix : (afterIdentifier? (xs ++ k)).getD (xs ++ k) =
      (afterIdentifier? xs).getD xs ++ k := Option.some.inj (stops_suffix follows xs)
  have first (xs : List Char) :
      (xs ++ k).head?.any isIdentifierPart = xs.head?.any isIdentifierPart := by
    cases xs with
    | nil =>
      obtain ⟨member, post⟩ := follows
      exact not_part_of_stops _ member
    | cons c cs => rfl
  unfold afterNumberSuffix?
  dsimp only
  rw [suffix, first]
  split <;> rfl

theorem leaves_afterNumberSuffix? : Leaves afterNumberSuffix? := by
  intro cs rest read
  unfold afterNumberSuffix? at read
  dsimp only at read
  split at read
  · cases read
  · exact leaves_suffix cs rest read

theorem stops_afterNumber? : Stops afterNumber? :=
  (stops_afterFractionDigits?.bind stops_afterNumberSuffix?).or
    (stops_afterWholeDigits?.bind stops_afterNumberSuffix?)

theorem takes_afterNumber? : Takes afterNumber? :=
  (takes_afterFractionDigits?.bind leaves_afterNumberSuffix?).or
    (takes_afterWholeDigits?.bind leaves_afterNumberSuffix?)

end MacroExpansion.Token
