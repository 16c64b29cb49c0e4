import MacroExpansion.Element
import MacroExpansion.Macro
import MacroExpansion.Record.Datum

/-!
# Records

How the data of the library is written as data values and read back. Reading accepts the fields of
a record in any order, or as a list; unknown fields are ignored; the field of an optional value may
be missing.
-/
namespace MacroExpansion

open Record

/-- The numbers that records hold are below this bound. -/
def Record.numberLimit : Nat := Nat.pow 2 32

namespace Record

/-- A number of a record. -/
def number? : Datum → Option Nat
  | .natural n => if n < numberLimit then some n else none
  | _ => none

def text? : Datum → Option String
  | .text s => some s
  | _ => none

def list? : Datum → Option (List Datum)
  | .list items => some items
  | _ => none

/-- An optional field: missing or null, it has no value. -/
def optional? (read : Datum → Option α) : Option Datum → Option (Option α)
  | none => some none
  | some .null => some none
  | some d => (read d).map some

/-- One of a list of values, by its tag. -/
def oneOf? (tag : α → String) (values : List α) (d : Datum) : Option α :=
  d.unitTag?.bind fun t => values.find? fun v => tag v == t

end Record

namespace Ident

def encode (i : Ident) : Datum :=
  .text i.name

def decode? (d : Datum) : Option Ident :=
  (text? d).map Ident.mk

end Ident

namespace ScopeId

def encode (s : ScopeId) : Datum :=
  .natural s.index

def decode? (d : Datum) : Option ScopeId :=
  (number? d).map ScopeId.mk

end ScopeId

namespace Namespace

def encode (n : Namespace) : Datum :=
  .text n.text

def decode? : Datum → Option Namespace :=
  oneOf? text all

end Namespace

namespace ElementKind

def encode (k : ElementKind) : Datum :=
  .text k.text

def decode? : Datum → Option ElementKind :=
  oneOf? text all

end ElementKind

namespace InvocationContext

def encode : InvocationContext → Datum
  | module scope => .fields [("Module", scope.encode)]
  | block scope => .fields [("Block", scope.encode)]
  | expression => .text "Expression"

def decode? (d : Datum) : Option InvocationContext :=
  match d.variant? with
  | some ("Module", some scope) => (ScopeId.decode? scope).map module
  | some ("Block", some scope) => (ScopeId.decode? scope).map block
  | some ("Expression", none) => some expression
  | some ("Expression", some .null) => some expression
  | _ => none

end InvocationContext

namespace Span

def fieldNames : List String :=
  ["source_file", "macro_invocation", "start_line", "start_column", "end_line", "end_column"]

/-- A place whose invocations are written as `outer`. -/
def encodePlace (p : Place) (outer : Datum) : Datum :=
  .fields [("source_file", .text p.file), ("macro_invocation", outer),
    ("start_line", .natural p.startLine), ("start_column", .natural p.startColumn),
    ("end_line", .natural p.endLine), ("end_column", .natural p.endColumn)]

def encodeOuter : List Place → Datum
  | [] => .null
  | p :: ps => encodePlace p (encodeOuter ps)

/-- Each invocation is a field of the location that was expanded from it. -/
def encode (s : Span) : Datum :=
  encodePlace s.place (encodeOuter s.outer)

/-- Reads a location with fewer than `depth` nested invocations. -/
def decodeWithin? : (depth : Nat) → Datum → Option Span
  | 0, _ => none
  | depth + 1, d =>
    match d.columns? fieldNames with
    | some [some file, invocation, some startLine, some startColumn, some endLine,
        some endColumn] => do
      let file ← text? file
      let outer ← optional? (decodeWithin? depth) invocation
      let startLine ← number? startLine
      let startColumn ← number? startColumn
      let endLine ← number? endLine
      let endColumn ← number? endColumn
      return {
        place := ⟨file, startLine, startColumn, endLine, endColumn⟩
        outer := match outer with
          | none => []
          | some s => s.place :: s.outer }
    | _ => none

def decode? (d : Datum) : Option Span :=
  decodeWithin? d.depth d

end Span

namespace MacroDefinition

def encode (m : MacroDefinition) : Datum :=
  .fields [("name", m.name.encode), ("source", .text m.source), ("span", m.span.encode)]

def decode? (d : Datum) : Option MacroDefinition :=
  match d.columns? ["name", "source", "span"] with
  | some [some name, some source, some span] => do
    return ⟨← Ident.decode? name, ← text? source, ← Span.decode? span⟩
  | _ => none

end MacroDefinition

namespace MacroInvocation

def encode (m : MacroInvocation) : Datum :=
  .fields [("name", m.name.encode), ("source", .text m.source), ("span", m.span.encode),
    ("context", m.context.encode)]

def decode? (d : Datum) : Option MacroInvocation :=
  match d.columns? ["name", "source", "span", "context"] with
  | some [some name, some source, some span, some context] => do
    return ⟨← Ident.decode? name, ← text? source, ← Span.decode? span,
      ← InvocationContext.decode? context⟩
  | _ => none

end MacroInvocation

namespace Element

/-- The fields that an element has in and out of a scope. -/
def encodeFields (e : Element) : List (String × Datum) :=
  [("kind", e.kind.encode), ("name", (e.name.map Ident.encode).getD .null),
    ("attributes", .list (e.attributes.map Datum.text)), ("text", .text e.text),
    ("span", e.span.encode)]

def encode (e : Element) : Datum :=
  .fields e.encodeFields

end Element

namespace BoundElement

def encode (e : BoundElement) : Datum :=
  .fields (e.encodeFields ++ [("context", e.context.encode)])

def decode? (d : Datum) : Option BoundElement :=
  match d.columns? ["kind", "name", "attributes", "text", "span", "context"] with
  | some [some kind, name, some attributes, some text, some span, some context] => do
    let kind ← ElementKind.decode? kind
    let name ← optional? Ident.decode? name
    let attributes ← (← list? attributes).mapM text?
    let text ← text? text
    let span ← Span.decode? span
    let context ← ScopeId.decode? context
    return { kind, name, attributes, text, span, context }
  | _ => none

end BoundElement

end MacroExpansion
