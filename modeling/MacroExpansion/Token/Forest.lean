import MacroExpansion.Token.Lexeme

/-!
# Token trees of a text

Opening and closing delimiters are matched up, which turns the lexemes of a text into token trees.
-/
namespace MacroExpansion.TokenTree

/-- A group that is still open. -/
structure OpenGroup where
  delimiter : Delimiter
  start : Position
  /-- What stands before it on its level, the latest first. -/
  before : List TokenTree
  deriving Repr

/-- The trees of some lexemes. `done` are the trees of the present level, the latest first, and
`groups` the groups around it, the innermost first. -/
def close? : List PlacedLexeme → (groups : List OpenGroup) → (done : List TokenTree) →
    Option (List TokenTree)
  | [], [], done => some done.reverse
  | [], _ :: _, _ => none
  | ⟨.ident spelling, extent⟩ :: rest, groups, done =>
    close? rest groups (.ident spelling extent :: done)
  | ⟨.punct char joint, extent⟩ :: rest, groups, done =>
    close? rest groups (.punct char joint extent :: done)
  | ⟨.literal spelling, extent⟩ :: rest, groups, done =>
    close? rest groups (.literal spelling extent :: done)
  | ⟨.opening delimiter, extent⟩ :: rest, groups, done =>
    close? rest (⟨delimiter, extent.start, done⟩ :: groups) []
  | ⟨.closing _, _⟩ :: _, [], _ => none
  | ⟨.closing delimiter, extent⟩ :: rest, g :: groups, done =>
    if delimiter = g.delimiter then
      close? rest groups (.group delimiter done.reverse ⟨g.start, extent.stop⟩ :: g.before)
    else none

/-- The token trees of some lexemes, if every group is closed by its own delimiter. -/
def ofLexemes? (lexemes : List PlacedLexeme) : Option (List TokenTree) :=
  close? lexemes [] []

/-- The token trees of a text. -/
def ofText? (cs : List Char) : Option (List TokenTree) :=
  (Lexeme.scan? cs).bind ofLexemes?

end MacroExpansion.TokenTree
