/-!
# Data values

The values that records are written as. A natural number is written without sign, fraction and
exponent; any other spelling of a number is kept apart, since no record holds one.
-/
namespace MacroExpansion.Record

inductive Datum where
  | null
  | bool (value : Bool)
  | natural (value : Nat)
  /-- A number in another spelling than that of a natural number. -/
  | otherNumber
  | text (value : String)
  | list (items : List Datum)
  /-- Named fields, each name once. -/
  | fields (entries : List (String × Datum))

namespace Datum

mutual

/-- How deep lists and fields are nested. -/
def depth : Datum → Nat
  | null | bool _ | natural _ | otherNumber | text _ => 1
  | list items => depthOfItems items + 1
  | fields entries => depthOfEntries entries + 1

def depthOfItems : List Datum → Nat
  | [] => 0
  | d :: ds => max d.depth (depthOfItems ds)

def depthOfEntries : List (String × Datum) → Nat
  | [] => 0
  | (_, d) :: ds => max d.depth (depthOfEntries ds)

end

/-- The fields called `names`, in that order. Written by name, a field may be missing and there
may be others; written as a list, the value has exactly these fields. -/
def columns? (names : List String) : Datum → Option (List (Option Datum))
  | fields entries => some (names.map fun name => entries.lookup name)
  | list items => if items.length = names.length then some (items.map some) else none
  | _ => none

/-- The one tag of a variant, with its content. A tag alone may be written as text. -/
def variant? : Datum → Option (String × Option Datum)
  | text tag => some (tag, none)
  | fields [(tag, content)] => some (tag, some content)
  | _ => none

/-- The tag of a variant without content, which may be written as a null. -/
def unitTag? (d : Datum) : Option String :=
  match d.variant? with
  | some (tag, none) => some tag
  | some (tag, some null) => some tag
  | _ => none

end Datum

end MacroExpansion.Record
