import MacroExpansion.Text.Slice

/-!
# Positions of tokens

A position is kept twice: as a number of bytes, by which text is cut, and as line and column, which
locations show.
-/
namespace MacroExpansion

structure Position where
  /-- Bytes from the start. -/
  offset : Nat
  /-- Lines count from 1. -/
  line : Nat
  /-- Columns count characters from 0. -/
  column : Nat
  deriving DecidableEq, Repr

namespace Position

/-- Where a text starts. -/
def origin : Position := ⟨0, 1, 0⟩

/-- The position after a character. A line ends after its line break. -/
def next (p : Position) (c : Char) : Position :=
  if c = '\n' then ⟨p.offset + c.utf8Size, p.line + 1, 0⟩
  else ⟨p.offset + c.utf8Size, p.line, p.column + 1⟩

/-- The position after a text. -/
def after (p : Position) (cs : List Char) : Position :=
  cs.foldl next p

@[simp] theorem after_nil (p : Position) : p.after [] = p := rfl

@[simp] theorem after_cons (p : Position) (c : Char) (cs : List Char) :
    p.after (c :: cs) = (p.next c).after cs := rfl

theorem after_append (p : Position) (xs ys : List Char) :
    p.after (xs ++ ys) = (p.after xs).after ys := by
  simp [after]

theorem offset_next (p : Position) (c : Char) :
    (p.next c).offset = p.offset + c.utf8Size := by
  unfold next
  split <;> rfl

/-- Offsets count bytes. -/
theorem offset_after (p : Position) (cs : List Char) :
    (p.after cs).offset = p.offset + Text.byteSize cs := by
  induction cs generalizing p with
  | nil => simp
  | cons c cs ih => simp [ih, offset_next, Nat.add_assoc]

end Position

/-- The stretch of text that something takes. -/
structure Extent where
  start : Position
  stop : Position
  deriving DecidableEq, Repr

end MacroExpansion
