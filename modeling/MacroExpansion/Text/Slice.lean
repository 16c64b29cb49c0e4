/-!
# Cutting text by bytes

Positions in a text count the bytes of its UTF-8 form. A cut outside of the text, or within a
character, has no result. The delimiters of a group take one byte each, so what stands between
them is the group's range less one byte at either end.
-/
namespace MacroExpansion.Text

/-- The bytes a text takes. -/
def byteSize : List Char → Nat
  | [] => 0
  | c :: cs => c.utf8Size + byteSize cs

/-- The text after its first `n` bytes, if they end at a character boundary. -/
def dropBytes? : Nat → List Char → Option (List Char)
  | 0, cs => some cs
  | _ + 1, [] => none
  | n + 1, c :: cs => if c.utf8Size ≤ n + 1 then dropBytes? (n + 1 - c.utf8Size) cs else none

/-- The first `n` bytes of a text, if they end at a character boundary. -/
def takeBytes? : Nat → List Char → Option (List Char)
  | 0, _ => some []
  | _ + 1, [] => none
  | n + 1, c :: cs =>
    if c.utf8Size ≤ n + 1 then (takeBytes? (n + 1 - c.utf8Size) cs).map (c :: ·) else none

/-- The bytes from `start` up to `stop`. -/
def slice? (cs : List Char) (start stop : Nat) : Option (List Char) :=
  if start ≤ stop then (dropBytes? start cs).bind (takeBytes? (stop - start)) else none

/-- The text strictly between the delimiters of a group that covers the bytes from `start` up to
`stop`; none if they are adjacent. -/
def between? (cs : List Char) (start stop : Nat) : Option (List Char) :=
  if stop < start + 2 then none
  else
    match slice? cs (start + 1) (stop - 1) with
    | some [] => none
    | found => found

@[simp] theorem byteSize_nil : byteSize [] = 0 := rfl

@[simp] theorem byteSize_cons (c : Char) (cs : List Char) :
    byteSize (c :: cs) = c.utf8Size + byteSize cs := rfl

@[simp] theorem byteSize_append (xs ys : List Char) :
    byteSize (xs ++ ys) = byteSize xs + byteSize ys := by
  induction xs with
  | nil => simp
  | cons c cs ih => simp [ih, Nat.add_assoc]

@[simp] theorem dropBytes?_zero (cs : List Char) : dropBytes? 0 cs = some cs := by
  cases cs <;> rfl

@[simp] theorem takeBytes?_zero (cs : List Char) : takeBytes? 0 cs = some [] := by
  cases cs <;> rfl

theorem dropBytes?_cons (c : Char) (cs : List Char) (n : Nat) :
    dropBytes? (c.utf8Size + n) (c :: cs) = dropBytes? n cs := by
  have hc := c.utf8Size_pos
  obtain ⟨k, hk⟩ : ∃ k, c.utf8Size + n = k + 1 := ⟨c.utf8Size + n - 1, by omega⟩
  rw [hk, dropBytes?, if_pos (by omega)]
  congr 1
  omega

/-- Cutting off a whole text leaves what follows it. -/
theorem dropBytes?_append (xs ys : List Char) (n : Nat) :
    dropBytes? (byteSize xs + n) (xs ++ ys) = dropBytes? n ys := by
  induction xs generalizing n with
  | nil => simp
  | cons c cs ih =>
    rw [byteSize_cons, List.cons_append, Nat.add_assoc, dropBytes?_cons, ih]

theorem takeBytes?_append (xs ys : List Char) :
    takeBytes? (byteSize xs) (xs ++ ys) = some xs := by
  induction xs with
  | nil => simp
  | cons c cs ih =>
    have hc := c.utf8Size_pos
    obtain ⟨k, hk⟩ : ∃ k, c.utf8Size + byteSize cs = k + 1 :=
      ⟨c.utf8Size + byteSize cs - 1, by omega⟩
    rw [byteSize_cons, List.cons_append, hk, takeBytes?, if_pos (by omega)]
    have : k + 1 - c.utf8Size = byteSize cs := by omega
    rw [this, ih]
    rfl

/-- The bytes a middle part covers are that part. -/
theorem slice?_append (xs ys zs : List Char) :
    slice? (xs ++ ys ++ zs) (byteSize xs) (byteSize xs + byteSize ys) = some ys := by
  have h := dropBytes?_append xs (ys ++ zs) 0
  simp only [Nat.add_zero, dropBytes?_zero] at h
  rw [slice?, if_pos (by omega), List.append_assoc, h, Option.bind_some]
  have : byteSize xs + byteSize ys - byteSize xs = byteSize ys := by omega
  rw [this, takeBytes?_append]

theorem takeBytes?_cons (c : Char) (cs : List Char) (n : Nat) :
    takeBytes? (c.utf8Size + n) (c :: cs) = (takeBytes? n cs).map (c :: ·) := by
  have hc := c.utf8Size_pos
  obtain ⟨k, hk⟩ : ∃ k, c.utf8Size + n = k + 1 := ⟨c.utf8Size + n - 1, by omega⟩
  rw [hk, takeBytes?, if_pos (by omega)]
  congr 2
  omega

/-- What is cut off within a text is cut off whatever follows it. -/
theorem dropBytes?_append_left {n : Nat} {xs : List Char} (within : n ≤ byteSize xs)
    (ys : List Char) : dropBytes? n (xs ++ ys) = (dropBytes? n xs).map (· ++ ys) := by
  induction xs generalizing n with
  | nil =>
    obtain rfl : n = 0 := Nat.le_zero.mp within
    simp
  | cons c cs ih =>
    cases n with
    | zero => rfl
    | succ n =>
      rw [byteSize_cons] at within
      rw [List.cons_append, dropBytes?, dropBytes?, ih (by omega)]
      split <;> rfl

theorem takeBytes?_append_left {n : Nat} {xs : List Char} (within : n ≤ byteSize xs)
    (ys : List Char) : takeBytes? n (xs ++ ys) = takeBytes? n xs := by
  induction xs generalizing n with
  | nil =>
    obtain rfl : n = 0 := Nat.le_zero.mp within
    simp
  | cons c cs ih =>
    cases n with
    | zero => simp
    | succ n =>
      rw [byteSize_cons] at within
      rw [List.cons_append, takeBytes?, takeBytes?, ih (by omega)]

/-- What is left of a text has the bytes that were not cut off. -/
theorem byteSize_of_dropBytes? {n : Nat} {xs rest : List Char} (h : dropBytes? n xs = some rest) :
    byteSize xs = n + byteSize rest := by
  induction xs generalizing n with
  | nil =>
    cases n with
    | zero =>
      cases h
      rfl
    | succ n => cases h
  | cons c cs ih =>
    cases n with
    | zero =>
      cases h
      simp
    | succ n =>
      rw [dropBytes?] at h
      split at h
      next fits =>
        have left := ih h
        rw [byteSize_cons]
        omega
      next => cases h

/-- A stretch within a text is the same whatever follows the text. -/
theorem slice?_append_left {start stop : Nat} {xs : List Char} (within : stop ≤ byteSize xs)
    (ys : List Char) : slice? (xs ++ ys) start stop = slice? xs start stop := by
  unfold slice?
  split
  next ordered =>
    rw [dropBytes?_append_left (by omega)]
    cases cut : dropBytes? start xs with
    | none => rfl
    | some rest =>
      have left := byteSize_of_dropBytes? cut
      exact takeBytes?_append_left (by omega) ys
  next => rfl

/-- A stretch of a text is the same after another text, whose bytes come before it. -/
theorem slice?_append_right (xs ys : List Char) (start stop : Nat) :
    slice? (xs ++ ys) (byteSize xs + start) (byteSize xs + stop) = slice? ys start stop := by
  have long : byteSize xs + stop - (byteSize xs + start) = stop - start := by omega
  rw [slice?, slice?, dropBytes?_append, long]
  simp only [Nat.add_le_add_iff_left]

/-- What starts with a text has it in front. -/
theorem slice?_zero_append (xs ys : List Char) (stop : Nat) :
    slice? (xs ++ ys) 0 (byteSize xs + stop) = (slice? ys 0 stop).map (xs ++ ·) := by
  have taken : takeBytes? (byteSize xs + stop) (xs ++ ys) =
      (takeBytes? stop ys).map (xs ++ ·) := by
    induction xs with
    | nil => simp
    | cons c cs ih =>
      rw [byteSize_cons, List.cons_append, Nat.add_assoc, takeBytes?_cons, ih, Option.map_map]
      rfl
  simpa [slice?] using taken

end MacroExpansion.Text
