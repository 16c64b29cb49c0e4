import MacroExpansion.Element
import MacroExpansion.Token.Tree

/-!
# Items

What a file, a module or a body holds, as far as it matters for names and invocations: its items,
and the invocations among its statements. All other statements and expressions are left out.
-/
namespace MacroExpansion

/-- The path of a rule set that is invoked. -/
structure MacroPath where
  /-- Whether it starts with `::`. -/
  rooted : Bool
  /-- Its segments as they are spelled. -/
  segments : List String
  deriving DecidableEq, Repr

namespace MacroPath

/-- Whether a path is a single word. -/
def isWord (path : MacroPath) (word : String) : Bool :=
  !path.rooted && path.segments == [word]

/-- The word that an invocation of it defines a rule set by. -/
def definer : String := "macro_rules"

end MacroPath

/-- A path, an exclamation mark and a delimited group. -/
structure MacroCall where
  path : MacroPath
  delimiter : Delimiter
  body : List TokenTree
  /-- The delimited group. -/
  group : Extent
  /-- From the path to the end of the group. -/
  extent : Extent
  deriving Repr

/-- Whether an invocation takes the place of an item only with a semicolon after it. -/
def MacroCall.needsSemicolon (call : MacroCall) : Bool :=
  call.delimiter != .brace

/-- Where an invocation among the statements of a body stands. -/
inductive CallPosition where
  /-- A statement that a semicolon ends. -/
  | statement
  /-- The initial value of a variable. -/
  | initializer
  /-- The last expression of a body. -/
  | tail
  deriving DecidableEq, Repr

/-- What items of all kinds have. -/
structure ItemHead where
  /-- The paths of its attributes, those written inside of its braces last. -/
  attributes : List String
  /-- From the first token to the last. -/
  extent : Extent
  /-- Whether it counts as starting where the text starts. -/
  displaced : Bool
  deriving DecidableEq, Repr

mutual

inductive Item where
  /-- An item that holds nothing of interest. -/
  | leaf (head : ItemHead) (kind : ElementKind) (name : Option Ident)
  /-- A module whose items are elsewhere. -/
  | moduleElsewhere (head : ItemHead) (spelling : String)
  | module (head : ItemHead) (spelling : String) (items : List Item)
  | function (head : ItemHead) (spelling : String) (body : List Statement)
  /-- An implementation, with the bodies of its functions. -/
  | implementation (head : ItemHead) (bodies : List (List Statement))
  /-- The definition of a rule set. -/
  | ruleSet (head : ItemHead) (spelling : String)
  | invocation (head : ItemHead) (call : MacroCall)
  /-- An item that is kept without being understood. -/
  | raw (head : ItemHead)

/-- A statement of a body. -/
inductive Statement where
  | item (item : Item)
  /-- A statement that is an invocation or has one as its initial value. -/
  | invocation (extent : Extent) (position : CallPosition) (call : MacroCall)

end

namespace Item

/-- The name that a word declares. An underscore declares none. -/
def declaredName (spelling : String) : Option Ident :=
  if spelling = "_" then none else some (Ident.ofSpelling spelling)

def head : Item → ItemHead
  | leaf head _ _ => head
  | moduleElsewhere head _ => head
  | module head _ _ => head
  | function head _ _ => head
  | implementation head _ => head
  | ruleSet head _ => head
  | invocation head _ => head
  | raw head => head

/-- What an item is, and the name it declares. -/
structure Description where
  kind : ElementKind
  name : Option Ident
  deriving DecidableEq, Repr

/-- How an item takes part in name resolution, if it does. -/
def describe : Item → Option Description
  | leaf _ kind name => some ⟨kind, name⟩
  | moduleElsewhere _ spelling => some ⟨.module, declaredName spelling⟩
  | module _ spelling _ => some ⟨.module, declaredName spelling⟩
  | function _ spelling _ => some ⟨.function, declaredName spelling⟩
  | implementation _ _ => some ⟨.impl, none⟩
  | ruleSet _ spelling => some ⟨.macroRules, declaredName spelling⟩
  | invocation _ _ => some ⟨.macroCall, none⟩
  | raw _ => none

end Item

end MacroExpansion
