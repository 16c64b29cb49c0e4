import MacroExpansion.Expansion.Expand
import MacroExpansion.Tree.SourceTree

/-!
# Expanding the invocations of a file

All invocations of a file are expanded once, in the order they were written in, each by the
definitions that are visible at its position. The names of the results are bound in the scopes of
the invocations, where they replace nothing. Results are not searched for invocations.
-/
namespace MacroExpansion

/-- What an element declares by its name. -/
def BoundElement.slot? (element : BoundElement) : Option Slot :=
  element.kind.slot? element.name

/-- How the name of an invocation's result is bound. -/
def BoundElement.declaration? (result : BoundElement) (invocation : MacroInvocation) :
    Option Declaration :=
  result.slot?.map fun slot => ⟨slot, ⟨result.kind, .expanded invocation.span⟩, result.span⟩

namespace TracedTree

/-- Binds the name of a result. -/
def bindResult (invocation : MacroInvocation) (t : TracedTree) (result : BoundElement) :
    TracedTree :=
  match result.declaration? invocation with
  | some declaration => t.declare result.context declaration
  | none => t

/-- Expands invocations in order; gives the results of all of them. -/
def expandEach (t : TracedTree) :
    List RecordedInvocation → Attempt Empty (TracedTree × List BoundElement)
  | [] => .ok (t, [])
  | ⟨invocation, position⟩ :: rest => do
    let (outcome, events) := (expandOrNone (t.tree.textual.lookup position) invocation).outcome
    let t := { t with events := t.events ++ events.map .expansion }
    match ← outcome with
    | none => expandEach t rest
    | some results =>
      let t := t.report (.expanded invocation results.length)
      let t := results.foldl (bindResult invocation) t
      let (t, later) ← expandEach t rest
      return (t, results ++ later)

end TracedTree

/-- Expands all invocations of a file, unless this was done before. -/
def SourceTree.expandAll (tree : SourceTree) : Attempt Empty TracedTree :=
  match tree.expansions with
  | some _ => .ok ⟨tree, []⟩
  | none => do
    let (t, results) ← TracedTree.expandEach ⟨tree, []⟩ tree.invocations
    return { t with tree := { t.tree with expansions := some results } }

end MacroExpansion
