import MacroExpansion.Grammar.Item

/-!
# Texts of a grammar

The rules are tied to each other a number of times that no text exceeds: a rule that uses another
without having read a token comes to one that reads after a few steps.
-/
namespace MacroExpansion.Grammar

/-- The rules, used by each other at most `depth` times. -/
def rules : (depth : Nat) → Rules
  | 0 => Rules.refusing
  | depth + 1 => {
      type := fun plus => type (rules depth) plus
      bound := fun cursor => bound (rules depth) cursor
      operand := fun structs => operand (rules depth) structs
      climb := fun structs left base => climb (rules depth) structs left base
      early := fun cursor => early (rules depth) cursor
      pattern := fun cursor => pattern (rules depth) cursor
      statements := fun cursor => statements (rules depth) cursor
      item := fun cursor => item (rules depth) cursor
      useTree := fun cursor => useTree (rules depth) cursor
      namedFields := fun cursor => namedFields (rules depth) cursor }

/-- The uses of rules that reading a token may take. -/
def usesPerToken : Nat := 8

/-- The rules for some tokens. -/
def rulesFor (tokens : List TokenTree) : Rules :=
  rules (usesPerToken * (TokenTree.weightOfAll tokens + 2))

/-- Reads a text by a rule. -/
def parseText (p : Rules → Parser α) (cs : List Char) : Attempt SyntaxError α := do
  let tokens ← Attempt.ofOption .unexpected (TokenTree.ofText? cs)
  parseAll (p (rulesFor tokens)) tokens

/-- The items of a file. -/
def fileItems (r : Rules) : Parser (List Item) := do
  let _ ← innerAttributes
  untilEnd r.item

/-- The items of a text that is scanned as a file. -/
def parseFile (code : List Char) : Attempt SyntaxError (List Item) :=
  parseText fileItems code

/-- A text that is a single invocation. -/
def parseCall (cs : List Char) : Attempt SyntaxError MacroCall :=
  parseText (fun _ => macroCall) cs

end MacroExpansion.Grammar
