import MacroExpansion.Text.Blank

/-!
# Blanks and comments ahead of a text

Two rules skip what may stand in front of the first token. `skipSeparators` is the rule of the
token scanner: block comments nest, and `/**/` is a comment. `skipTrivia` is the plainer rule of
the text that is cut: a block comment ends at the first `*/`, and `/**/` counts as a doc comment.
Both stop at a doc comment and at a block comment that is never closed.
-/
namespace MacroExpansion.Text

/-- The text from the next line break on. -/
def fromLineBreak (cs : List Char) : List Char :=
  cs.dropWhile (· != '\n')

/-- What follows the first `*/`. -/
def afterCommentEnd? : List Char → Option (List Char)
  | [] => none
  | '*' :: '/' :: cs => some cs
  | _ :: cs => afterCommentEnd? cs

/-- What follows the `*/` that closes `depth` open block comments. -/
def afterNestedComment? : (depth : Nat) → List Char → Option (List Char)
  | 0, cs => some cs
  | _ + 1, [] => none
  | depth + 1, '/' :: '*' :: cs => afterNestedComment? (depth + 2) cs
  | depth + 1, '*' :: '/' :: cs => afterNestedComment? depth cs
  | depth + 1, _ :: cs => afterNestedComment? (depth + 1) cs

/-- Whether a text starts with a line comment that is no doc comment. -/
def startsLineComment : List Char → Bool
  | '/' :: '/' :: '/' :: '/' :: _ => true
  | '/' :: '/' :: '/' :: _ => false
  | '/' :: '/' :: '!' :: _ => false
  | '/' :: '/' :: _ => true
  | _ => false

/-- Whether a text starts with a block comment that is no doc comment; `/**/` is not asked. -/
def startsBlockComment : List Char → Bool
  | '/' :: '*' :: '*' :: '*' :: _ => true
  | '/' :: '*' :: '*' :: _ => false
  | '/' :: '*' :: '!' :: _ => false
  | '/' :: '*' :: _ => true
  | _ => false

/-- One step of `skipSeparators`: the text after one separator or comment. -/
def separatorStep? (cs : List Char) : Option (List Char) :=
  if startsLineComment cs then some (fromLineBreak cs)
  else
    match cs with
    | '/' :: '*' :: '*' :: '/' :: rest => some rest
    | '/' :: '*' :: rest => if startsBlockComment cs then afterNestedComment? 1 rest else none
    | c :: rest => if isSeparator c then some rest else none
    | [] => none

/-- At most `n` steps past separators and comments. -/
def skipSeparatorsWithin : (n : Nat) → List Char → List Char
  | 0, cs => cs
  | n + 1, cs =>
    match separatorStep? cs with
    | some rest => skipSeparatorsWithin n rest
    | none => cs

/-- The text from its first token or doc comment on. A step takes at least one character, so the
length bounds the number of steps. -/
def skipSeparators (cs : List Char) : List Char :=
  skipSeparatorsWithin cs.length cs

/-- One step of `skipTrivia` on a text that starts with no blank. -/
def triviaStep? (cs : List Char) : Option (List Char) :=
  if startsLineComment cs then some (fromLineBreak cs)
  else if startsBlockComment cs then afterCommentEnd? (cs.drop 2)
  else none

/-- At most `n` comments, with the blanks around them. -/
def skipTriviaWithin : (n : Nat) → List Char → List Char
  | 0, cs => trimStart cs
  | n + 1, cs =>
    match triviaStep? (trimStart cs) with
    | some rest => skipTriviaWithin n rest
    | none => trimStart cs

/-- The text after the blanks and the comments that are no doc comments. A comment takes at least
two characters, so the length bounds their number. -/
def skipTrivia (cs : List Char) : List Char :=
  skipTriviaWithin cs.length cs

end MacroExpansion.Text
