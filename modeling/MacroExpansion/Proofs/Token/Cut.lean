import MacroExpansion.Token.Lexeme

/-!
# Reading in front of a stop

What reads one thing off the start of a text may look at what follows it. If that is a closing
delimiter, a semicolon, a separator or a comment, it reads the same thing where the text ends there:
no name or number goes on with one of them, no literal ends with one, and none of them needs one.
The converse is told where it holds; it fails for what may run on to the end of its text. Comments
have marks of their own, which are told apart from what follows them by their characters.
-/
namespace MacroExpansion.Token

open Text

/-- What a reader leaves is the end of what it was given. -/
def Leaves (f : List Char → Option (List Char)) : Prop :=
  ∀ cs rest, f cs = some rest → rest <:+ cs

/-- What is left of a text of which at least the first character was taken. -/
def Taken : (cs rest : List Char) → Prop
  | [], _ => False
  | _ :: cs, rest => rest <:+ cs

/-- A reader takes at least the first character. -/
def Takes (f : List Char → Option (List Char)) : Prop :=
  ∀ cs rest, f cs = some rest → Taken cs rest

/-- The delimiters that close a group. -/
def closers : List Char :=
  [')', ']', '}']

/-- The characters that nothing goes on with, but for a semicolon. -/
def ends : List Char :=
  '\n' :: ' ' :: closers

/-- The characters that separate tokens. -/
def separators : List Char :=
  ['\t', '\n', '\x0b', '\x0c', '\r', ' ', '\u0085', '\u00a0', '\u1680', '\u2000', '\u2001',
    '\u2002', '\u2003', '\u2004', '\u2005', '\u2006', '\u2007', '\u2008', '\u2009', '\u200a',
    '\u200e', '\u200f', '\u2028', '\u2029', '\u202f', '\u205f', '\u3000']

/-- The characters that no name, number or literal goes on with; a slash may start a comment. -/
def stops : List Char :=
  '/' :: ';' :: (closers ++ separators)

/-- A text that starts with one of them. -/
inductive Follows : List Char → Prop
  | head {c : Char} (stop : c ∈ stops) (post : List Char) : Follows (c :: post)

/-- The characters of the marks of comments. -/
def marks : List Char :=
  ['/', '*', '!']

/-- A text that goes on with no mark of a comment. -/
def Unmarked (k : List Char) : Prop :=
  ∀ c ∈ k.head?, c ∉ marks

/-- A reader that does not read what nothing goes on with reads the same without it. -/
def Local (f : List Char → Option (List Char)) : Prop :=
  ∀ ⦃k⦄, Follows k → ∀ xs rest, f (xs ++ k) = some (rest ++ k) ↔ f xs = some rest

/-- A reader never gets to what nothing goes on with. -/
def Stops (f : List Char → Option (List Char)) : Prop :=
  ∀ ⦃k⦄, Follows k → ∀ xs, f (xs ++ k) = (f xs).map (· ++ k)

/-- What follows a text is cut off: all from a character on, or all behind a character or a
semicolon. Punctuation may form an operator with a semicolon, which is therefore kept. -/
inductive Cuts (apart : List Char) : (full cut : List Char) → Prop
  | before {c : Char} (member : c ∈ apart) (post : List Char) : Cuts apart (c :: post) []
  | behind {c : Char} (member : c ∈ ';' :: apart) (post : List Char) : Cuts apart (c :: post) [c]

/-- What follows a text is swapped: it is cut off, or the text goes on with a word that stays the
same and with something else behind it. -/
inductive Swaps : (full cut : List Char) → Prop
  | cut {full cut : List Char} (cuts : Cuts ends full cut) : Swaps full cut
  | word {c : Char} {cs k k' : List Char} (letter : isIdentifierStart c)
      (readable : c ∉ Lexeme.unreadable) (follows : Follows k) (follows' : Follows k') :
      Swaps (c :: cs ++ k) (c :: cs ++ k')

variable {f g : List Char → Option (List Char)} {k : List Char}

/-- What is checked of the list of stops holds of every stop. -/
theorem of_stops {P : Char → Prop} [DecidablePred P] (each : stops.all fun c => decide (P c)) :
    ∀ c ∈ stops, P c := by
  simpa using each

theorem mem_stops_of_ends {c : Char} (member : c ∈ ';' :: ends) : c ∈ stops := by
  have each : (';' :: ends).all (stops.contains ·) = true := by decide
  simpa using List.all_eq_true.mp each c member

/-- A separator is one of the listed characters. -/
theorem mem_stops_of_isSeparator {c : Char} (separates : isSeparator c = true) : c ∈ stops := by
  have listed : ∀ n : Nat, n ∈ separators.map Char.toNat → Char.ofNat n ∈ stops := by decide
  have known : c.toNat ∈ separators.map Char.toNat := by
    simp [isSeparator, isBlank] at separates
    have numbers : separators.map Char.toNat = [0x09, 0x0A, 0x0B, 0x0C, 0x0D, 0x20, 0x85, 0xA0,
      0x1680, 0x2000, 0x2001, 0x2002, 0x2003, 0x2004, 0x2005, 0x2006, 0x2007, 0x2008, 0x2009,
      0x200A,
      0x200E, 0x200F, 0x2028, 0x2029, 0x202F, 0x205F, 0x3000] := by decide
    rw [numbers]
    simp only [List.mem_cons, List.not_mem_nil, or_false]
    omega
  have made := listed _ known
  rwa [Char.ofNat_toNat] at made

theorem Taken.suffix {cs rest : List Char} (h : Taken cs rest) : rest <:+ cs := by
  cases cs with
  | nil => exact h.elim
  | cons c cs => exact List.IsSuffix.trans h (List.suffix_cons c cs)

theorem Taken.trans {cs mid rest : List Char} (first : Taken cs mid) (later : rest <:+ mid) :
    Taken cs rest := by
  cases cs with
  | nil => exact first
  | cons c cs => exact later.trans first

/-- What was taken off the end of a text was taken off it. -/
theorem Taken.of_suffix {cs mid rest : List Char} (h : Taken mid rest) (ends : mid <:+ cs) :
    Taken cs rest := by
  cases cs with
  | nil =>
    rw [List.suffix_nil.mp ends] at h
    exact h
  | cons c cs =>
    rcases List.suffix_cons_iff.mp ends with rfl | ends
    · exact h
    · exact h.suffix.trans ends

theorem Taken.length_lt {cs rest : List Char} (h : Taken cs rest) : rest.length < cs.length := by
  cases cs with
  | nil => exact h.elim
  | cons c cs => exact Nat.lt_succ_of_le (List.IsSuffix.length_le h)

theorem Takes.leaves (h : Takes f) : Leaves f :=
  fun cs rest read => (h cs rest read).suffix

/-- Nothing is left of a text as a whole. -/
theorem Takes.not_nil (h : Takes f) (k rest : List Char) : f k ≠ some (rest ++ k) := by
  intro read
  have short := (h _ _ read).length_lt
  rw [List.length_append] at short
  omega

theorem Stops.local (h : Stops f) : Local f := by
  intro k follows xs rest
  rw [h follows xs]
  cases f xs <;> simp

theorem Unmarked.nil : Unmarked [] :=
  fun _ member => nomatch member

theorem Unmarked.cons {c : Char} (other : c ∉ marks) (post : List Char) : Unmarked (c :: post) := by
  rintro _ ⟨⟩
  exact other

theorem not_mark_of_ends {c : Char} (member : c ∈ ';' :: ends) : c ∉ marks := by
  have each : (';' :: ends).all (!marks.contains ·) = true := by decide
  simpa using List.all_eq_true.mp each c member

theorem not_mark_of_start {c : Char} (letter : isIdentifierStart c) : c ∉ marks := by
  have each : marks.all (!isIdentifierStart ·) = true := by decide
  intro mark
  have plain := List.all_eq_true.mp each c mark
  rw [letter] at plain
  cases plain

namespace Cuts

variable {full cut : List Char}

/-- A closing delimiter is one of the stops that form no operator. -/
theorem broken (h : Cuts closers full cut) : Cuts ends full cut := by
  have among : closers ⊆ ends := List.subset_append_right ['\n', ' '] closers
  cases h with
  | before member post => exact .before (among member) post
  | behind member post => exact .behind (List.cons_subset_cons _ among member) post

theorem follows (h : Cuts ends full cut) : Follows full := by
  cases h with
  | before member post => exact .head (mem_stops_of_ends (List.mem_cons_of_mem _ member)) post
  | behind member post => exact .head (mem_stops_of_ends member) post

/-- Neither what is cut off nor what is left of it goes on with a mark. -/
theorem unmarked (h : Cuts ends full cut) : Unmarked full ∧ Unmarked cut := by
  cases h with
  | before member post =>
    exact ⟨.cons (not_mark_of_ends (List.mem_cons_of_mem _ member)) post, .nil⟩
  | behind member post =>
    exact ⟨.cons (not_mark_of_ends member) post, .cons (not_mark_of_ends member) []⟩

/-- What is cut off is the end. -/
theorem whole {apart : List Char} (h : Cuts apart full cut) : ∃ post, full = cut ++ post := by
  cases h with
  | before _ post => exact ⟨_, rfl⟩
  | behind _ post => exact ⟨post, rfl⟩

/-- A cut is made where there is a closing delimiter or a semicolon. -/
theorem start (h : Cuts closers full cut) : ∃ c post, c ∈ ';' :: closers ∧ full = c :: post := by
  cases h with
  | before member post => exact ⟨_, post, List.mem_cons_of_mem _ member, rfl⟩
  | behind member post => exact ⟨_, post, member, rfl⟩

theorem swaps (h : Cuts closers full cut) : Swaps full cut :=
  .cut h.broken

end Cuts

namespace Swaps

variable {full cut : List Char}

theorem unmarked (h : Swaps full cut) : Unmarked full ∧ Unmarked cut := by
  cases h with
  | cut cuts => exact cuts.unmarked
  | word letter _ _ _ =>
    exact ⟨.cons (not_mark_of_start letter) _, .cons (not_mark_of_start letter) _⟩

/-- What is the same in front of every stop is the same after a swap. -/
theorem same {α : Type} {g : List Char → α}
    (stop : ∀ {k}, Follows k → ∀ xs, g (xs ++ k) = g xs) (h : Swaps full cut)
    (xs : List Char) : g (xs ++ full) = g (xs ++ cut) := by
  cases h with
  | cut cuts =>
    rw [stop cuts.follows]
    cases cuts with
    | before => rw [List.append_nil]
    | behind member => exact (stop (.head (mem_stops_of_ends member) []) xs).symm
  | word _ _ follows follows' =>
    rw [← List.append_assoc, ← List.append_assoc, stop follows, stop follows']

/-- What is read before a swap is read after it. -/
theorem reads (h : Swaps full cut) (each : Local f) (xs rest : List Char) :
    f (xs ++ full) = some (rest ++ full) ↔ f (xs ++ cut) = some (rest ++ cut) := by
  cases h with
  | cut cuts =>
    rw [each cuts.follows]
    cases cuts with
    | before => rw [List.append_nil, List.append_nil]
    | behind member => exact (each (.head (mem_stops_of_ends member) []) xs rest).symm
  | word _ _ follows follows' =>
    rw [← List.append_assoc, ← List.append_assoc, ← List.append_assoc, ← List.append_assoc,
      each follows, each follows']

end Swaps

theorem Local.bind (first : Local f) (second : Local g) (leaves : Leaves g) :
    Local fun cs => (f cs).bind g := by
  intro k follows xs rest
  constructor
  · intro read
    obtain ⟨mid, early, late⟩ := Option.bind_eq_some_iff.mp read
    obtain ⟨taken, rfl⟩ := leaves _ _ late
    rw [← List.append_assoc] at early late
    exact Option.bind_eq_some_iff.mpr
      ⟨taken ++ rest, (first follows _ _).mp early, (second follows _ _).mp late⟩
  · intro read
    obtain ⟨mid, early, late⟩ := Option.bind_eq_some_iff.mp read
    exact Option.bind_eq_some_iff.mpr
      ⟨mid ++ k, (first follows _ _).mpr early, (second follows _ _).mpr late⟩

theorem Stops.bind (first : Stops f) (second : Stops g) : Stops fun cs => (f cs).bind g := by
  intro k follows xs
  change (f (xs ++ k)).bind g = ((f xs).bind g).map _
  rw [first follows xs]
  cases f xs with
  | none => rfl
  | some rest => exact second follows rest

theorem Stops.or (first : Stops f) (second : Stops g) : Stops fun cs => (f cs).or (g cs) := by
  intro k follows xs
  change (f (xs ++ k)).or (g (xs ++ k)) = ((f xs).or (g xs)).map _
  rw [first follows xs, second follows xs]
  cases f xs <;> rfl

theorem Leaves.bind (first : Leaves f) (second : Leaves g) : Leaves fun cs => (f cs).bind g := by
  intro cs rest read
  obtain ⟨mid, early, late⟩ := Option.bind_eq_some_iff.mp read
  exact (second _ _ late).trans (first _ _ early)

theorem Takes.bind (first : Takes f) (second : Leaves g) : Takes fun cs => (f cs).bind g := by
  intro cs rest read
  obtain ⟨mid, early, late⟩ := Option.bind_eq_some_iff.mp read
  exact (first _ _ early).trans (second _ _ late)

theorem Takes.or (first : Takes f) (second : Takes g) : Takes fun cs => (f cs).or (g cs) := by
  intro cs rest read
  rcases Option.or_eq_some_iff.mp read with early | ⟨_, late⟩
  · exact first cs rest early
  · exact second cs rest late

/-! ## Parts of names -/

/-- Characters are passed over up to a stop at most. -/
theorem dropWhile_cut {p : Char → Bool} (stop : ∀ c ∈ stops, p c = false) (follows : Follows k)
    (xs : List Char) : (xs ++ k).dropWhile p = xs.dropWhile p ++ k := by
  induction xs with
  | nil =>
    obtain ⟨member, post⟩ := follows
    simp [stop _ member]
  | cons c cs ih =>
    rw [List.cons_append, List.dropWhile_cons, List.dropWhile_cons, ih]
    split <;> rfl

theorem takeWhile_cut {p : Char → Bool} (stop : ∀ c ∈ stops, p c = false) (follows : Follows k)
    (xs : List Char) : (xs ++ k).takeWhile p = xs.takeWhile p := by
  induction xs with
  | nil =>
    obtain ⟨member, post⟩ := follows
    simp [stop _ member]
  | cons c cs ih => rw [List.cons_append, List.takeWhile_cons, List.takeWhile_cons, ih]

/-- A start ends before a character that it has not. -/
theorem isPrefixOf_append_cons {start : List Char} {c : Char} (free : c ∉ start)
    (xs post : List Char) : start.isPrefixOf (xs ++ c :: post) = start.isPrefixOf xs := by
  induction start generalizing xs with
  | nil => simp
  | cons d start ih =>
    rw [List.mem_cons, not_or] at free
    cases xs with
    | nil => simpa [List.isPrefixOf] using fun same => absurd same.symm free.1
    | cons e cs => simp [List.isPrefixOf, ih free.2 cs]

/-- A start that has no stop in it ends before one. -/
theorem isPrefixOf_cut {start : List Char} (free : ∀ c ∈ stops, c ∉ start) (follows : Follows k)
    (xs : List Char) : start.isPrefixOf (xs ++ k) = start.isPrefixOf xs := by
  obtain ⟨member, post⟩ := follows
  exact isPrefixOf_append_cons (free _ member) xs post

/-- The start of a comment is not made by what goes on with no mark. -/
theorem isPrefixOf_unmarked {start : List Char} (marked : start.all (marks.contains ·))
    (unmarked : Unmarked k) (xs : List Char) :
    start.isPrefixOf (xs ++ k) = start.isPrefixOf xs := by
  cases k with
  | nil => rw [List.append_nil]
  | cons c post =>
    refine isPrefixOf_append_cons (fun member => unmarked c rfl ?_) xs post
    exact List.contains_iff_mem.mp (List.all_eq_true.mp marked c member)

/-- A start that no text goes on from is not there. -/
theorem isPrefixOf_absent {start cs : List Char} (other : ∀ more, cs = start ++ more → False) :
    start.isPrefixOf cs = false := by
  cases found : start.isPrefixOf cs with
  | false => rfl
  | true =>
    obtain ⟨more, same⟩ := List.isPrefixOf_iff_prefix.mp found
    exact (other more same.symm).elim

theorem consumed_append (taken rest : List Char) :
    Lexeme.consumed (taken ++ rest) rest = taken := by
  simp [Lexeme.consumed]

/-- What was taken is the same if less follows. -/
theorem consumed_cut {xs rest : List Char} (left : rest <:+ xs) (k : List Char) :
    Lexeme.consumed (xs ++ k) (rest ++ k) = Lexeme.consumed xs rest := by
  obtain ⟨taken, rfl⟩ := left
  rw [List.append_assoc, consumed_append, consumed_append]

theorem not_start_of_stops : ∀ c ∈ stops, isIdentifierStart c = false :=
  of_stops (by decide +kernel)

theorem not_part_of_stops : ∀ c ∈ stops, isIdentifierPart c = false :=
  of_stops (by decide +kernel)

theorem stops_afterIdentifier? : Stops afterIdentifier? := by
  intro k follows xs
  cases xs with
  | nil =>
    obtain ⟨member, post⟩ := follows
    simp [afterIdentifier?, not_start_of_stops _ member]
  | cons c cs =>
    rw [List.cons_append, afterIdentifier?, afterIdentifier?,
      dropWhile_cut not_part_of_stops follows]
    split <;> rfl

theorem takes_afterIdentifier? : Takes afterIdentifier? := by
  intro cs rest read
  cases cs with
  | nil => cases read
  | cons c cs =>
    rw [afterIdentifier?] at read
    split at read
    · cases read
      exact List.dropWhile_suffix isIdentifierPart
    · cases read

/-- What follows the name that a literal may go on with. -/
theorem stops_suffix : Stops fun cs => some ((afterIdentifier? cs).getD cs) := by
  intro k follows xs
  dsimp only
  rw [stops_afterIdentifier? follows]
  cases afterIdentifier? xs <;> rfl

theorem leaves_suffix : Leaves fun cs => some ((afterIdentifier? cs).getD cs) := by
  intro cs rest read
  obtain rfl := Option.some.inj read
  cases named : afterIdentifier? cs with
  | none => exact List.suffix_refl cs
  | some after => exact takes_afterIdentifier?.leaves cs after named

end MacroExpansion.Token
