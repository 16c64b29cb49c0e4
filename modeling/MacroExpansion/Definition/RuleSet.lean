import MacroExpansion.Definition.Piece
import MacroExpansion.Grammar.File

/-!
# Definitions of rule sets

A definition has a name and cases, each with a pattern and a template in delimiters of any kind.
-/
namespace MacroExpansion

/-- One case, `(pattern) => (template)`. -/
structure RuleCase where
  pattern : Pattern
  template : Template
  deriving Repr

structure RuleSet where
  name : Ident
  cases : List RuleCase
  deriving Repr

namespace RuleSet

/-- The cases in the braces of a definition. A semicolon may follow each. -/
def readCases : List TokenTree → Except SyntaxError (List RuleCase)
  | [] => .ok []
  | .group _ left _ :: rest => do
    let pattern ← Piece.ofTokens .pattern left
    match rest with
    | .punct '=' true _ :: .punct '>' _ _ :: .group _ right _ :: rest =>
      let template ← Piece.ofTokens .template right
      match rest with
      | .punct ';' _ _ :: rest => return ⟨pattern, template⟩ :: (← readCases rest)
      | rest => return ⟨pattern, template⟩ :: (← readCases rest)
    | _ => .error .unexpected
  | _ :: _ => .error .unexpected

/-- What a call in place of an item defines. -/
def ofCall (named : Grammar.NamedCall) : Except SyntaxError RuleSet := do
  unless named.call.path.isWord MacroPath.definer do throw .notDefinition
  match named.name with
  | none => throw .unnamedDefinition
  | some spelling => return ⟨.ofSpelling spelling, ← readCases named.call.body⟩

/-- Reads a definition. -/
def parser : Grammar.Parser RuleSet := do
  let _ ← Grammar.outerAttributes
  let named ← Grammar.callItem
  match ofCall named with
  | .ok rules => return rules
  | .error cause => throw (.error cause)

/-- The definition that a text is. -/
def parse (cs : List Char) : Attempt SyntaxError RuleSet :=
  Grammar.parseText (fun _ => parser) cs

end RuleSet

/-- The pieces that a text is. -/
def Piece.parse (spelling : Spelling μ) (cs : List Char) : Attempt SyntaxError (List (Piece μ)) :=
  match TokenTree.ofText? cs with
  | none => Attempt.fail .unexpected
  | some tokens =>
    match Piece.ofTokens spelling tokens with
    | .ok pieces => .ok pieces
    | .error cause => Attempt.fail cause

end MacroExpansion
