import MacroExpansion.Proofs.Token.Cut

/-!
# Quoted literals in front of a stop

A quoted literal that ends before a stop is read the same where the text ends there, and one that
ends with the text is read the same in front of any stop. Its first quote tells what ends it, so
nothing behind its last quote counts, but for a suffix.
-/
namespace MacroExpansion.Token

open Text

variable (form : QuotedForm)

theorem takes_afterQuoted? (s : QuotedState) : Takes (afterQuoted? form s) := by
  intro cs rest read
  induction cs generalizing s with
  | nil => cases read
  | cons c cs ih =>
    rw [afterQuoted?] at read
    split at read
    · cases read
      exact List.suffix_refl rest
    · obtain ⟨next, _, read⟩ := Option.bind_eq_some_iff.mp read
      exact (ih next read).suffix

theorem local_afterQuoted? (s : QuotedState) : Local (afterQuoted? form s) := by
  intro k follows xs rest
  induction xs generalizing s with
  | nil => simpa [afterQuoted?] using (takes_afterQuoted? form s).not_nil k rest
  | cons c cs ih =>
    rw [List.cons_append, afterQuoted?, afterQuoted?]
    split
    · simp
    · cases s.step form c with
      | none => simp
      | some next => exact ih next

theorem takes_afterEscape? (s : QuotedState) : Takes (afterEscape? form s) := by
  intro cs rest read
  induction cs generalizing s with
  | nil => cases read
  | cons c cs ih =>
    rw [afterEscape?] at read
    split at read
    · cases read
      exact List.suffix_refl rest
    · cases read
    · cases read
    next next _ _ _ _ => exact (ih next read).suffix
    · cases read

theorem local_afterEscape? (s : QuotedState) : Local (afterEscape? form s) := by
  intro k follows xs rest
  induction xs generalizing s with
  | nil => simpa [afterEscape?] using (takes_afterEscape? form s).not_nil k rest
  | cons c cs ih =>
    rw [List.cons_append, afterEscape?, afterEscape?]
    split
    · simp
    · simp
    · simp
    next next _ _ _ _ => exact ih next
    · simp

theorem takes_afterApostrophe? : Takes afterApostrophe? := by
  intro cs rest read
  unfold afterApostrophe? at read
  split at read
  · cases read
    exact List.suffix_refl rest
  · cases read

theorem local_afterApostrophe? : Local afterApostrophe? := by
  intro k follows xs rest
  cases xs with
  | nil => simpa [afterApostrophe?] using takes_afterApostrophe?.not_nil k rest
  | cons c cs =>
    by_cases quote : c = '\''
    · subst quote
      simp [afterApostrophe?]
    · simp [afterApostrophe?, quote]

theorem takes_afterCharacter? : Takes (afterCharacter? form) := by
  intro cs rest read
  unfold afterCharacter? at read
  split at read
  · cases read
  next more =>
    have late : Leaves fun cs => (afterEscape? form .escape cs).bind afterApostrophe? :=
      (takes_afterEscape? form .escape).leaves.bind takes_afterApostrophe?.leaves
    exact late more rest read
  · split at read
    · exact takes_afterApostrophe?.leaves _ rest read
    · cases read

theorem local_afterCharacter? : Local (afterCharacter? form) := by
  intro k follows xs rest
  cases xs with
  | nil => simpa [afterCharacter?] using (takes_afterCharacter? form).not_nil k rest
  | cons c cs =>
    by_cases escape : c = '\\'
    · subst escape
      have late : Local fun cs => (afterEscape? form .escape cs).bind afterApostrophe? :=
        (local_afterEscape? form .escape).bind local_afterApostrophe? takes_afterApostrophe?.leaves
      exact late follows cs rest
    · simp only [List.cons_append, afterCharacter?]
      split
      · exact local_afterApostrophe? follows cs rest
      · simp

theorem takes_afterRawContent? (marks : Nat) (lineEnd : Bool) :
    Takes (afterRawContent? form marks lineEnd) := by
  intro cs rest read
  induction cs generalizing lineEnd with
  | nil => cases lineEnd <;> cases read
  | cons c cs ih =>
    cases lineEnd with
    | true =>
      rw [afterRawContent?] at read
      split at read
      · exact (ih false read).suffix
      · cases read
    | false =>
      rw [afterRawContent?] at read
      split at read
      · cases read
        exact List.drop_suffix marks cs
      split at read
      · exact (ih true read).suffix
      split at read
      · exact (ih false read).suffix
      · cases read

theorem local_afterRawContent? (marks : Nat) (lineEnd : Bool) :
    Local (afterRawContent? form marks lineEnd) := by
  intro k follows xs rest
  induction xs generalizing lineEnd with
  | nil =>
    have takes := (takes_afterRawContent? form marks lineEnd).not_nil k rest
    cases lineEnd <;> simpa [afterRawContent?] using takes
  | cons c cs ih =>
    cases lineEnd with
    | true =>
      rw [List.cons_append, afterRawContent?, afterRawContent?]
      split
      · exact ih false
      · simp
    | false =>
      have other : ∀ c ∈ stops, c ≠ '#' := of_stops (by decide)
      have free : ∀ c ∈ stops, c ∉ List.replicate marks '#' := fun c member among =>
        other c member (List.eq_of_mem_replicate among)
      rw [List.cons_append, afterRawContent?, afterRawContent?, isPrefixOf_cut free follows]
      split
      next ends =>
        rw [Bool.and_eq_true, List.isPrefixOf_iff_prefix] at ends
        have short := ends.2.length_le
        rw [List.length_replicate] at short
        rw [List.drop_append_of_le_length short]
        simp
      split
      · exact ih true
      split
      · exact ih false
      · simp

theorem takes_afterRaw? : Takes (afterRaw? form) := by
  intro cs rest read
  unfold afterRaw? at read
  dsimp only at read
  split at read
  next content opened =>
    split at read
    · have left : Taken ('"' :: content) rest :=
        (takes_afterRawContent? form _ false).leaves content rest read
      rw [← opened] at left
      exact left.of_suffix (List.drop_suffix _ cs)
    · cases read
  · cases read

theorem local_afterRaw? : Local (afterRaw? form) := by
  intro k follows xs rest
  have stop : ∀ c ∈ stops, (c == '#') = false := of_stops (by decide)
  have marks : (xs.takeWhile (· == '#')).length ≤ xs.length :=
    (List.takeWhile_prefix _).length_le
  unfold afterRaw?
  dsimp only
  rw [takeWhile_cut stop follows, List.drop_append_of_le_length marks]
  cases xs.drop (xs.takeWhile (· == '#')).length with
  | nil =>
    have other : ∀ c ∈ stops, c ≠ '"' := of_stops (by decide)
    obtain ⟨member, post⟩ := follows
    simp [other _ member]
  | cons c content =>
    by_cases quote : c = '"'
    · subst quote
      by_cases few : (xs.takeWhile (· == '#')).length ≤ rawMarkLimit
      · simpa [few] using local_afterRawContent? form _ false follows content rest
      · simp [few]
    · simp [quote]

theorem takes_afterQuotes? : Takes afterQuotes? := by
  intro cs rest read
  unfold afterQuotes? at read
  split at read
  · exact (takes_afterQuoted? .text .plain).leaves _ _ read
  · exact (takes_afterRaw? .text).leaves _ _ read
  · exact ((takes_afterQuoted? .bytes .plain).leaves _ _ read).trans (List.suffix_cons _ _)
  · exact ((takes_afterRaw? .bytes).leaves _ _ read).trans (List.suffix_cons _ _)
  · exact ((takes_afterCharacter? .bytes).leaves _ _ read).trans (List.suffix_cons _ _)
  · exact ((takes_afterQuoted? .terminated .plain).leaves _ _ read).trans (List.suffix_cons _ _)
  · exact ((takes_afterRaw? .terminated).leaves _ _ read).trans (List.suffix_cons _ _)
  · exact (takes_afterCharacter? .text).leaves _ _ read
  · cases read

/-- The two characters that tell the form of a quoted literal are no stops. -/
theorem local_afterQuotes? : Local afterQuotes? := by
  intro k follows xs rest
  cases xs with
  | nil => simpa [afterQuotes?] using takes_afterQuotes?.not_nil k rest
  | cons c cs =>
    by_cases text : c = '"'
    · subst text
      exact local_afterQuoted? .text .plain follows cs rest
    by_cases raw : c = 'r'
    · subst raw
      exact local_afterRaw? .text follows cs rest
    by_cases character : c = '\''
    · subst character
      exact local_afterCharacter? .text follows cs rest
    by_cases bytes : c = 'b'
    · subst bytes
      cases cs with
      | nil =>
        have other : ∀ c ∈ stops, c ≠ '"' ∧ c ≠ 'r' ∧ c ≠ '\'' := of_stops (by decide)
        obtain ⟨member, post⟩ := follows
        obtain ⟨text, raw, character⟩ := other _ member
        simp [afterQuotes?, text, raw, character]
      | cons d cs =>
        by_cases text : d = '"'
        · subst text
          exact local_afterQuoted? .bytes .plain follows cs rest
        by_cases raw : d = 'r'
        · subst raw
          exact local_afterRaw? .bytes follows cs rest
        by_cases character : d = '\''
        · subst character
          exact local_afterCharacter? .bytes follows cs rest
        simp [afterQuotes?, text, raw, character]
    by_cases terminated : c = 'c'
    · subst terminated
      cases cs with
      | nil =>
        have other : ∀ c ∈ stops, c ≠ '"' ∧ c ≠ 'r' := of_stops (by decide)
        obtain ⟨member, post⟩ := follows
        obtain ⟨text, raw⟩ := other _ member
        simp [afterQuotes?, text, raw]
      | cons d cs =>
        by_cases text : d = '"'
        · subst text
          exact local_afterQuoted? .terminated .plain follows cs rest
        by_cases raw : d = 'r'
        · subst raw
          exact local_afterRaw? .terminated follows cs rest
        simp [afterQuotes?, text, raw]
    simp [afterQuotes?, text, raw, character, bytes, terminated]

theorem afterQuotedLiteral?_eq :
    afterQuotedLiteral? = fun cs => (afterQuotes? cs).bind fun rest =>
      some ((afterIdentifier? rest).getD rest) := by
  funext cs
  exact Option.map_eq_bind

theorem takes_afterQuotedLiteral? : Takes afterQuotedLiteral? := by
  rw [afterQuotedLiteral?_eq]
  exact takes_afterQuotes?.bind leaves_suffix

theorem local_afterQuotedLiteral? : Local afterQuotedLiteral? := by
  rw [afterQuotedLiteral?_eq]
  exact local_afterQuotes?.bind stops_suffix.local leaves_suffix

end MacroExpansion.Token
