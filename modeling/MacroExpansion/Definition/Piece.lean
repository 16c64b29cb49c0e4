import MacroExpansion.Grammar.Cursor
import MacroExpansion.Ident

/-!
# Pieces of patterns and templates

Both sides of a case are sequences of pieces: repetitions `$( … )`, delimited groups, what follows
a lone `$`, and all other tokens one by one. The separator and the operator of a repetition are not
kept. After a lone `$` a pattern has a name and a kind, and a template has a name; names may be
reserved words.
-/
namespace MacroExpansion

/-- What a metavariable of a pattern matches. -/
inductive FragmentKind where
  | block
  | expr
  | ident
  | item
  | lifetime
  | literal
  | metaItem
  | pattern
  | patternParameter
  | path
  | statement
  | tokenTree
  | type
  | visibility
  deriving DecidableEq, Repr

namespace FragmentKind

def text : FragmentKind → String
  | block => "block"
  | expr => "expr"
  | ident => "ident"
  | item => "item"
  | lifetime => "lifetime"
  | literal => "literal"
  | metaItem => "meta"
  | pattern => "pat"
  | patternParameter => "pat_param"
  | path => "path"
  | statement => "stmt"
  | tokenTree => "tt"
  | type => "ty"
  | visibility => "vis"

def all : List FragmentKind :=
  [block, expr, ident, item, lifetime, literal, metaItem, pattern, patternParameter, path,
    statement, tokenTree, type, visibility]

/-- The kind that a word names. -/
def ofText? (spelling : String) : Option FragmentKind :=
  all.find? fun kind => kind.text == spelling

theorem mem_all (kind : FragmentKind) : kind ∈ all := by
  cases kind <;> decide

end FragmentKind

/-- A metavariable of a pattern, `$name:kind`. -/
structure Fragment where
  name : Ident
  kind : FragmentKind
  deriving DecidableEq, Repr

/-- One piece; `μ` is what follows a lone `$`. -/
inductive Piece (μ : Type) where
  | token (token : TokenTree)
  | group (content : List (Piece μ))
  | metavariable (metavariable : μ)
  /-- A repetition, with the stretch of its parentheses. -/
  | repetition (content : List (Piece μ)) (parentheses : Extent)
  deriving Repr

/-- How a metavariable is spelled. -/
inductive Spelling (μ : Type) where
  | named (make : Ident → μ)
  /-- With a colon and a kind after the name. -/
  | typed (make : Ident → FragmentKind → μ)

namespace Spelling

/-- The metavariables of patterns. -/
def pattern : Spelling Fragment := .typed Fragment.mk

/-- The metavariables of templates. -/
def template : Spelling Ident := .named id

end Spelling

namespace Piece

/-- What the tokens read last ask for. -/
inductive Expectation (μ : Type) where
  | piece
  /-- After a `$`. -/
  | dollar
  /-- After the name of a metavariable that has a kind. -/
  | colon (make : FragmentKind → μ)
  | kind (make : FragmentKind → μ)
  /-- After the parentheses of a repetition. -/
  | operator (content : List (Piece μ)) (parentheses : Extent)

/-- The characters that say how often a repetition may match. -/
def repetitionOperators : List Char := ['*', '+', '?']

mutual

/-- The pieces within a group. -/
def within (spelling : Spelling μ) : TokenTree → Except SyntaxError (List (Piece μ))
  | .group _ content _ => read spelling .piece content
  | _ => .ok []

/-- The pieces of some tokens. -/
def read (spelling : Spelling μ) :
    Expectation μ → List TokenTree → Except SyntaxError (List (Piece μ))
  | .piece, [] => .ok []
  | .operator _ _, [] => .error .missingOperator
  | _, [] => .error .unexpected
  | .piece, t :: rest =>
    match t with
    | .punct '$' _ _ => read spelling .dollar rest
    | .group _ _ _ => do
      let content ← within spelling t
      return .group content :: (← read spelling .piece rest)
    | _ => do return .token t :: (← read spelling .piece rest)
  | .dollar, t :: rest =>
    match t with
    | .group .paren _ parentheses => do
      let content ← within spelling t
      read spelling (.operator content parentheses) rest
    | .ident text _ =>
      match spelling with
      | .named make => do
        return .metavariable (make (.ofSpelling text)) :: (← read spelling .piece rest)
      | .typed make => read spelling (.colon (make (.ofSpelling text))) rest
    | _ => .error .unexpected
  | .colon make, t :: rest =>
    match t with
    | .punct ':' _ _ => read spelling (.kind make) rest
    | _ => .error .unexpected
  | .kind make, t :: rest =>
    match t with
    | .ident text _ =>
      if Grammar.reserved.contains text then .error .unexpected
      else
        match FragmentKind.ofText? text with
        | some kind => do return .metavariable (make kind) :: (← read spelling .piece rest)
        | none => .error (.unknownFragment text)
    | _ => .error .unexpected
  | .operator content parentheses, t :: rest =>
    match t with
    | .punct c _ _ =>
      if repetitionOperators.contains c then do
        return .repetition content parentheses :: (← read spelling .piece rest)
      else read spelling (.operator content parentheses) rest
    | .group _ _ _ => .error .groupSeparator
    | _ => read spelling (.operator content parentheses) rest

end

/-- The pieces of some tokens. -/
def ofTokens (spelling : Spelling μ) (tokens : List TokenTree) :
    Except SyntaxError (List (Piece μ)) :=
  read spelling .piece tokens

end Piece

abbrev Pattern := List (Piece Fragment)

abbrev Template := List (Piece Ident)

end MacroExpansion
