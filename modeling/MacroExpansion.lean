import MacroExpansion.Record.Codec
import MacroExpansion.Tree.Expansion
import MacroExpansion.Tree.Walk
import MacroExpansion.Proofs.Definition.Printing
import MacroExpansion.Proofs.Definition.Separator
import MacroExpansion.Proofs.Expansion.Arguments
import MacroExpansion.Proofs.Expansion.Completion
import MacroExpansion.Proofs.Expansion.Dependence
import MacroExpansion.Proofs.Expansion.LazyStatic
import MacroExpansion.Proofs.Expansion.Nesting
import MacroExpansion.Proofs.Expansion.Ranges
import MacroExpansion.Proofs.Expansion.Settlement
import MacroExpansion.Proofs.Expansion.Template
import MacroExpansion.Proofs.Expansion.Transparency
import MacroExpansion.Proofs.Expansion.Units
import MacroExpansion.Proofs.Record.RoundTrip
import MacroExpansion.Proofs.Template.Replacement
import MacroExpansion.Proofs.TextualScope.Refinement
import MacroExpansion.Proofs.Walk.Definitions
import MacroExpansion.Proofs.Walk.Omission
import MacroExpansion.Proofs.Walk.Slots
import MacroExpansion.Proofs.Walk.Visibility
import MacroExpansion.Proofs.Grammar.Static
import MacroExpansion.Proofs.Token.Trim
import MacroExpansion.Proofs.Token.Trivia
import MacroExpansion.Proofs.Token.Word
import MacroExpansion.Proofs.Walk.Functions
import MacroExpansion.Proofs.Walk.Resolution
import MacroExpansion.Proofs.Walk.Addresses
import MacroExpansion.Proofs.Walk.Scopes
import MacroExpansion.Proofs.Expansion.Attributes
