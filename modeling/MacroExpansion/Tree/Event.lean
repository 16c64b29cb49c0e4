import MacroExpansion.Expansion.Event
import MacroExpansion.Tree.Bindings

/-!
# Events of a source tree

What happens while a file is read and its invocations are expanded, in order.
-/
namespace MacroExpansion

/-- What is left out if its text cannot be cut out of the file. -/
inductive Textless where
  | definition
  | invocation
  deriving DecidableEq, Repr

def Textless.message : Textless → String
  | definition => "couldn't find the source text of a macro"
  | invocation => "couldn't find the source text of a macro invocation"

inductive TreeEvent where
  | parsing (file : String)
  | foundDefinition (name : Ident)
  | foundInvocation (invocation : MacroInvocation)
  /-- A module whose items are elsewhere is not entered. -/
  | skippedModule (spelling : String)
  /-- A later function of the same name is not found by its name. -/
  | repeatedFunction (name : Ident)
  | refused (span : Span) (cause : AlreadyDefined)
  | leftOut (span : Span) (cause : Textless)
  | walked (file : String)
  | expansion (event : Event)
  | expanded (invocation : MacroInvocation) (count : Nat)
  deriving DecidableEq, Repr

def TreeEvent.notice? : TreeEvent → Option Notice
  | parsing file => some ⟨.trace, "parsing `" ++ file ++ "`"⟩
  | foundDefinition name => some ⟨.trace, "found macro " ++ name.name⟩
  | foundInvocation invocation => some ⟨.trace, "found invocation " ++ invocation.summary⟩
  | skippedModule spelling => some ⟨.trace, "skipping out-of-line module " ++ spelling⟩
  | repeatedFunction name => some ⟨.trace, "already saw a function named " ++ name.name⟩
  | refused span cause => some ⟨.warn, "[" ++ span.text ++ "]: " ++ cause.message⟩
  | leftOut span cause =>
    some ⟨.warn, "[" ++ span.text ++ "]: suppressing error: " ++ cause.message⟩
  | walked file => some ⟨.trace, "done walking `" ++ file ++ "`"⟩
  | expansion event => event.notice?
  | expanded invocation count =>
    some ⟨.trace, "expanded " ++ invocation.summary ++ " into " ++ toString count ++ " items"⟩

end MacroExpansion
