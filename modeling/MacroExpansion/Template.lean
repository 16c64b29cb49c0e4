import MacroExpansion.Ident

/-!
# Templates

A template is text in which a placeholder, `$` and a name, stands for an argument. Pasting is plain
replacement: no token boundaries, and pasted text is not searched again. One copy of the template
is made per argument, and the copies are set apart by a blank line.
-/
namespace MacroExpansion.Template

/-- The text that stands for the argument bound to a name. -/
def placeholder (binding : Ident) : List Char :=
  '$' :: binding.name.toList

/-- Puts a character in front of the first segment. -/
def extendFirst (c : Char) : List (List Char) → List (List Char)
  | [] => [[c]]
  | s :: rest => (c :: s) :: rest

/-- The segments of a text that starts with `left` characters of an occurrence of `mark`. -/
def segmentsFrom (mark : List Char) : (left : Nat) → List Char → List (List Char)
  | _, [] => [[]]
  | left + 1, _ :: cs => segmentsFrom mark left cs
  | 0, c :: cs =>
    if mark.isPrefixOf (c :: cs) then [] :: segmentsFrom mark (mark.length - 1) cs
    else extendFirst c (segmentsFrom mark 0 cs)

/-- The segments that the occurrences of `mark`, found from left to right, cut a text into. -/
def segments (mark : List Char) (cs : List Char) : List (List Char) :=
  segmentsFrom mark 0 cs

/-- One copy of a template, with an argument in place of each occurrence of `mark`. -/
def paste (mark template argument : List Char) : List Char :=
  argument.intercalate (segments mark template)

/-- What stands between two copies. -/
def blankLine : List Char :=
  ['\n', '\n']

/-- A copy of the template per argument. -/
def instantiate (template : List Char) (binding : Ident) (arguments : List (List Char)) :
    List Char :=
  blankLine.intercalate (arguments.map (paste (placeholder binding) template))

theorem segmentsFrom_ne_nil (mark : List Char) (left : Nat) (cs : List Char) :
    segmentsFrom mark left cs ≠ [] := by
  induction cs generalizing left with
  | nil => cases left <;> simp [segmentsFrom]
  | cons c cs ih =>
    cases left with
    | succ left => exact ih left
    | zero =>
      rw [segmentsFrom]
      split
      · simp
      · unfold extendFirst
        split <;> simp

end MacroExpansion.Template
