import MacroExpansion.Text.Trivia

/-!
# The preamble of a source file

A file may start with a byte-order mark and a `#!` line that names an interpreter. Neither is
code. A `#!` that is followed by `[` starts an inner attribute and is no such line.

Two readers decide this each by its own rule for the comments between `#!` and `[`: `codeOf` gives
the text that is scanned for tokens, `stripPreamble` the text that positions are later cut from.
They agree unless such comments nest, are written `/**/` or hold direction marks. Both keep the
line break of the removed line, so that lines keep their numbers.
-/
namespace MacroExpansion.Text

/-- The mark that may open a file. -/
def byteOrderMark : Char := '\ufeff'

/-- A text without a byte-order mark at its start. -/
def dropByteOrderMark : List Char → List Char
  | [] => []
  | c :: cs => if c = byteOrderMark then cs else c :: cs

/-- A text without its `#!` line, where `skip` passes over what may stand before a `[`. -/
def dropInterpreterLine (skip : List Char → List Char) (cs : List Char) : List Char :=
  match cs with
  | '#' :: '!' :: rest => if (skip rest).head? = some '[' then cs else fromLineBreak cs
  | _ => cs

/-- The text that is scanned for tokens. -/
def codeOf (cs : List Char) : List Char :=
  dropInterpreterLine skipSeparators (dropByteOrderMark cs)

/-- The text that positions are cut from. -/
def stripPreamble (cs : List Char) : List Char :=
  dropInterpreterLine skipTrivia (dropByteOrderMark cs)

theorem dropByteOrderMark_suffix (cs : List Char) : dropByteOrderMark cs <:+ cs := by
  cases cs with
  | nil => exact List.suffix_refl _
  | cons c cs =>
    rw [dropByteOrderMark]
    split
    · exact List.suffix_cons c cs
    · exact List.suffix_refl _

theorem dropInterpreterLine_suffix (skip : List Char → List Char) (cs : List Char) :
    dropInterpreterLine skip cs <:+ cs := by
  unfold dropInterpreterLine
  split
  · split
    · exact List.suffix_refl _
    · exact List.dropWhile_suffix _
  · exact List.suffix_refl _

/-- What remains of a text is a suffix of it. -/
theorem stripPreamble_suffix (cs : List Char) : stripPreamble cs <:+ cs :=
  (dropInterpreterLine_suffix _ _).trans (dropByteOrderMark_suffix _)

end MacroExpansion.Text
