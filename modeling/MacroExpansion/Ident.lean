/-!
# Names

A name is stored without the `r#` that a raw spelling starts with: `r#match` and `match` name the
same thing.
-/
namespace MacroExpansion

/-- The name of an invocable rule set, of a metavariable or of a declared item. -/
structure Ident where
  name : String
  deriving DecidableEq, Repr

namespace Ident

/-- A spelling without the mark of a raw identifier. -/
def unraw (spelling : String) : String :=
  match spelling.toList with
  | 'r' :: '#' :: cs => String.ofList cs
  | _ => spelling

/-- The name that a spelling in source stands for. -/
def ofSpelling (spelling : String) : Ident :=
  ⟨unraw spelling⟩

end Ident

end MacroExpansion
