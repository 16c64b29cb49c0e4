import MacroExpansion.Token.Position

/-!
# Token trees

The contents of parentheses, brackets and braces are a tree of their own. A punctuation token is
one character; it is joint if it may form one operator with the punctuation after it. A lifetime is
a joint quote and a name.
-/
namespace MacroExpansion

inductive Delimiter where
  | paren
  | bracket
  | brace
  deriving DecidableEq, Repr

inductive TokenTree where
  /-- A name or keyword, spelled as in the text. -/
  | ident (spelling : String) (extent : Extent)
  | punct (char : Char) (joint : Bool) (extent : Extent)
  | literal (spelling : String) (extent : Extent)
  /-- A delimited group; its extent includes the delimiters. -/
  | group (delimiter : Delimiter) (content : List TokenTree) (extent : Extent)
  deriving Repr

namespace TokenTree

def extent : TokenTree → Extent
  | ident _ extent => extent
  | punct _ _ extent => extent
  | literal _ extent => extent
  | group _ _ extent => extent

mutual

/-- The number of tokens, a group counting as one and its content. -/
def weight : TokenTree → Nat
  | ident _ _ | punct _ _ _ | literal _ _ => 1
  | group _ content _ => weightOfAll content + 1

def weightOfAll : List TokenTree → Nat
  | [] => 0
  | t :: ts => t.weight + weightOfAll ts

end

end TokenTree

end MacroExpansion
