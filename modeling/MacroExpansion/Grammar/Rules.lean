import MacroExpansion.Grammar.Cursor
import MacroExpansion.Item

/-!
# Mutually recursive rules

Types, expressions, patterns, statements and items nest in each other. Each rule is written over a
record of the rules it may use; `Grammar.rules` ties them. What a rule gives is no tree, but only
what other rules ask of it.
-/
namespace MacroExpansion.Grammar

/-- The arguments of a path segment. -/
inductive ArgumentShape where
  | absent
  | angled (empty : Bool)
  | parenthesized
  deriving DecidableEq, Repr

namespace ArgumentShape

/-- Whether parenthesized arguments may still follow. -/
def isEmpty : ArgumentShape → Bool
  | absent => true
  | angled empty => empty
  | parenthesized => false

end ArgumentShape

structure PathSegment where
  spelling : String
  arguments : ArgumentShape
  deriving DecidableEq, Repr

structure PathShape where
  rooted : Bool
  segments : List PathSegment
  deriving DecidableEq, Repr

namespace PathShape

/-- Whether no segment has arguments. -/
def isPlain (path : PathShape) : Bool :=
  path.segments.all fun s => s.arguments = .absent

/-- Whether parenthesized arguments may still follow the last segment. -/
def mayTakeArguments (path : PathShape) : Bool :=
  path.segments.getLast?.any fun s => s.arguments.isEmpty

/-- The path with parenthesized arguments in its last segment. -/
def parenthesized (path : PathShape) : PathShape :=
  match path.segments.getLast? with
  | none => path
  | some s =>
    { path with segments := path.segments.dropLast ++ [{ s with arguments := .parenthesized }] }

def toMacroPath (path : PathShape) : MacroPath :=
  ⟨path.rooted, path.segments.map PathSegment.spelling⟩

end PathShape

inductive TypeShape where
  /-- A path, qualified if it starts with a type in angle brackets. -/
  | path (qualified : Bool) (path : PathShape)
  /-- Bounds without `dyn` and `impl`. -/
  | bounds (single : Bool)
  | parenthesized
  | other
  deriving DecidableEq, Repr

inductive ExprShape where
  | call (call : MacroCall)
  /-- An expression that needs no semicolon to be a statement. -/
  | blockLike
  | range
  /-- An expression that is kept as it is written. -/
  | verbatim
  | other

namespace ExprShape

/-- Whether an expression has to be ended, by a semicolon or a comma. -/
def needsEnd : ExprShape → Bool
  | blockLike => false
  | _ => true

def isRange : ExprShape → Bool
  | range => true
  | _ => false

end ExprShape

/-- How tightly operators bind, from the loosest. -/
inductive Precedence where
  | none
  | assign
  | range
  | or
  | and
  | compare
  | bitOr
  | bitXor
  | bitAnd
  | shift
  | sum
  | product
  | cast
  deriving DecidableEq, Repr

namespace Precedence

def rank : Precedence → Nat
  | none => 0
  | assign => 1
  | range => 2
  | or => 3
  | and => 4
  | compare => 5
  | bitOr => 6
  | bitXor => 7
  | bitAnd => 8
  | shift => 9
  | sum => 10
  | product => 11
  | cast => 12

end Precedence

/-- The rules that other rules nest. -/
structure Rules where
  /-- A type, with `+` between bounds where that is allowed. -/
  type : (plus : Bool) → Parser TypeShape
  /-- A bound of a type; says whether it is a trait, and no lifetime. -/
  bound : Parser Bool
  /-- An operand with its prefix and postfix operators. A literal of a structure, `S { … }`, is not
  allowed everywhere. -/
  operand : (structs : Bool) → Parser ExprShape
  /-- Goes on after a left operand with operators that bind at least so tightly. -/
  climb : (structs : Bool) → ExprShape → Precedence → Parser ExprShape
  /-- An expression that starts a statement or is the result of a `match` arm. -/
  early : Parser ExprShape
  pattern : Parser Unit
  /-- The content of a block. -/
  statements : Parser (List Statement)
  item : Parser Item
  useTree : Parser Unit
  /-- Named fields in braces. -/
  namedFields : Parser Unit

namespace Rules

/-- An expression. -/
def expression (rules : Rules) (structs : Bool) : Parser ExprShape := do
  let left ← rules.operand structs
  rules.climb structs left .none

/-- A block without inner attributes. -/
def block (rules : Rules) : Parser Unit := do
  let _ ← delimited .brace rules.statements

/-- Rules that refuse everything. -/
def refusing : Rules where
  type _ := refuse
  bound := refuse
  operand _ := refuse
  climb _ _ _ := refuse
  early := refuse
  pattern := refuse
  statements := refuse
  item := refuse
  useTree := refuse
  namedFields := refuse

end Rules

end MacroExpansion.Grammar
