import MacroExpansion.Proofs.Expansion.Settlement
import MacroExpansion.Proofs.Grammar.Local
import MacroExpansion.Proofs.Walk.Addresses
import MacroExpansion.Proofs.Walk.Consistency
import MacroExpansion.Proofs.Walk.Texts

/-!
# The scopes of a file and the calls in them

The scopes of a tree are the root of its file, the modules written in it and the bodies of functions
and of the functions of implementations, one to one, each below the one that it is reached from. No
other braces are entered: the functions of a trait have no scopes. Every invocation that stands
directly in a scope is recorded, as long as the text that is cut is the one that was scanned.
-/
namespace MacroExpansion

open Grammar TokenTree Text

/-! ## Calls -/

/-- The invocation that a statement of a region is, with the context that the region gives it. -/
def Statement.call? (scope : ScopeId) (kind : ScopeKind) :
    Statement → Option (MacroCall × InvocationContext)
  | .item (.invocation _ call) => some (call, kind.itemContext scope)
  | .invocation _ position call => some (call, position.context scope)
  | _ => none

theorem Placed.invocation?_eq (p : Placed) (file : String) (code : List Char) :
    p.invocation? file code = (p.content.call? p.scope p.kind).bind fun (call, context) =>
      (call.invocation file code context).toOption.join := by
  unfold Placed.invocation? Statement.call?
  cases p.content with
  | item i => cases i <;> rfl
  | invocation => rfl

/-- A call that stands in a text looks up a name, and its own text can be cut out. -/
theorem Grammar.CallStands.invocation {root : List TokenTree} {call : MacroCall} {code : List Char}
    (stands : CallStands root call) (found : ofText? code = some root) (file : String)
    (context : InvocationContext) :
    ∃ invocation, call.invocation file code context = .ok (some invocation) := by
  obtain ⟨named, taken, row, nonempty, extent⟩ := stands
  have first : taken.head? = some (taken.head nonempty) := List.head?_eq_some_head nonempty
  have last : taken.getLast? = some (taken.getLast nonempty) :=
    List.getLast?_eq_some_getLast nonempty
  obtain ⟨pre, own, post, rfl, start, stop⟩ := between_of_row found row first last
  have text : slice? (pre ++ own ++ post) call.extent.start.offset call.extent.stop.offset =
      some own := by
    rw [extent, stretch, first, last]
    simp only [Option.map_some, Option.getD_some, start, stop]
    exact slice?_append pre own post
  have target : call.path.target? =
      some (.ofSpelling (call.path.segments.getLast named)) := by
    rw [MacroPath.target?, List.getLast?_eq_some_getLast named, Option.map_some]
  rw [MacroCall.invocation, target, text]
  exact ⟨_, rfl⟩

/-- What a statement opens is content of the item that it is. -/
theorem Statement.Opens.content {s : Statement} {number : Nat} {kind : ScopeKind}
    {body : List Statement} (opens : s.Opens number kind body) :
    ∃ i, s = .item i ∧ kind = i.contentKind ∧ ∀ t ∈ body, t ∈ i.content := by
  cases opens with
  | module | function => exact ⟨_, rfl, rfl, fun _ member => member⟩
  | method found =>
    exact ⟨_, rfl, rfl, fun _ member =>
      List.mem_flatten.mpr ⟨_, List.mem_of_getElem? found, member⟩⟩

/-- Whatever is reached from what was read of a text was read of it. -/
theorem Reaches.sourced {root : List TokenTree} {outer kind : ScopeKind}
    {members content : List Statement} {address : List Step}
    (reaches : Reaches outer members address kind content)
    (sourced : ∀ s ∈ members, SourcedIn root outer s) : ∀ s ∈ content, SourcedIn root kind s := by
  induction reaches with
  | here => exact sourced
  | inner opens _ ih =>
    obtain ⟨s, found, opens⟩ := opens
    obtain ⟨i, rfl, rfl, within⟩ := opens.content
    have own : Sourced root _ i := sourced _ (List.mem_of_getElem? found)
    exact ih fun t member => own.content t (within t member)

/-- A call that was read of a text, as an expression or in place of an item, stands there. -/
theorem Grammar.SourcedIn.call {root : List TokenTree} {kind : ScopeKind} {s : Statement}
    (sourced : SourcedIn root kind s) {scope : ScopeId} {call : MacroCall}
    {context : InvocationContext} (made : s.call? scope kind = some (call, context)) :
    CallStands root call := by
  unfold Statement.call? at made
  split at made
  next head own =>
    cases made
    obtain ⟨⟨taken, row, read⟩, -⟩ := sourced kind _ (.self kind _)
    obtain ⟨c, rest, named, ending, ahead, called, -, same, -⟩ := read.called trivial
    have whole : call = named.call := by
      unfold itemOfCall at same
      split at same
      · split at same <;> cases same
      · cases same
        rfl
    rw [whole]
    exact called.stands ahead row
  next =>
    cases made
    exact sourced
  next => cases made

/-! ## Scopes -/

theorem Reaches.unique {outer kind other : ScopeKind} {members body content : List Statement}
    {address : List Step} (h : Reaches outer members address kind body)
    (k : Reaches outer members address other content) : other = kind ∧ content = body := by
  induction h with
  | here =>
    cases k
    exact ⟨rfl, rfl⟩
  | inner opens _ ih =>
    cases k with
    | inner opens' deeper =>
      obtain ⟨s, found, opens⟩ := opens
      obtain ⟨rfl, rfl⟩ := opens.unique (opens'.opens found)
      exact ih deeper

/-- The scopes of a tree are what is reached from the root of a file, each at an address of its own
and below the scope that it is reached from. -/
structure SourceTree.ScopesReached (tree : SourceTree) (content : List Item)
    (addresses : List (List Step)) : Prop where
  size : addresses.length = tree.scopes.size
  apart : addresses.Nodup
  reached : ∀ address, address ∈ addresses ↔
    ∃ kind members, Reaches .module (content.map .item) address kind members
  kind : ∀ (n : Nat) address kind members, addresses[n]? = some address →
    Reaches .module (content.map .item) address kind members → tree.scopes.kind? ⟨n⟩ = some kind
  root : ∀ n : Nat, addresses[n]? = some [] → tree.scopes.parent? ⟨n⟩ = none
  parent : ∀ (n : Nat) outer step, addresses[n]? = some (outer ++ [step]) →
    ∃ m : Nat, addresses[m]? = some outer ∧ tree.scopes.parent? ⟨n⟩ = some ⟨m⟩

/-- A tree has recorded every invocation that stands directly in one of its scopes. -/
def SourceTree.RecordsCalls (tree : SourceTree) (file : String) (code : List Char)
    (content : List Item) (addresses : List (List Step)) : Prop :=
  ∀ (n : Nat) address kind members, addresses[n]? = some address →
    Reaches .module (content.map .item) address kind members →
    ∀ s ∈ members, ∀ call context, s.call? ⟨n⟩ kind = some (call, context) →
    ∃ invocation, call.invocation file code context = .ok (some invocation) ∧
      invocation ∈ tree.invocations.map RecordedInvocation.invocation

namespace SourceTree

variable {tree : SourceTree} {file : String} {code : List Char} {content : List Item}
  {addresses : List (List Step)}

theorem LaidOut.size (laid : tree.LaidOut file code content) :
    tree.scopes.size = (Regions.ofFile content).length := by
  rw [← ScopeTree.length_shape, laid.scopes, List.length_map]

theorem LaidOut.region (laid : tree.LaidOut file code content) {n : Nat} {region : Region}
    (found : (Regions.ofFile content)[n]? = some region) :
    tree.scopes.kind? ⟨n⟩ = some region.kind ∧ tree.scopes.parent? ⟨n⟩ = region.parent := by
  rw [ScopeTree.kind?_eq, ScopeTree.parent?_eq, laid.scopes, List.getElem?_map, found]
  exact ⟨rfl, rfl⟩

theorem LaidOut.scopesReached (laid : tree.LaidOut file code content)
    (addressed : Addressed content addresses) : tree.ScopesReached content addresses := by
  have site {n : Nat} {address : List Step} (found : addresses[n]? = some address) :
      ∃ region, (Regions.ofFile content)[n]? = some region := by
    have inside := (List.getElem?_eq_some_iff.mp found).1
    rw [addressed.length] at inside
    exact ⟨_, List.getElem?_eq_getElem inside⟩
  refine ⟨addressed.length.trans laid.size.symm, addressed.apart, fun address => ⟨?_, ?_⟩, ?_, ?_,
    ?_⟩
  · intro member
    obtain ⟨n, found⟩ := List.getElem?_of_mem member
    obtain ⟨region, made⟩ := site found
    exact ⟨_, _, (addressed.reached n address region found made).1⟩
  · rintro ⟨kind, members, reaches⟩
    exact addressed.complete address kind members reaches
  · intro n address kind members found reaches
    obtain ⟨region, made⟩ := site found
    obtain ⟨rfl, -⟩ := reaches.unique (addressed.reached n address region found made).1
    exact (laid.region made).1
  · intro n found
    obtain ⟨region, made⟩ := site found
    rw [(laid.region made).2]
    rcases (addressed.reached n _ region found made).2 with ⟨_, parent⟩ | ⟨_, _, _, same, _⟩
    · exact parent
    · simp at same
  · intro n outer step found
    obtain ⟨region, made⟩ := site found
    rw [(laid.region made).2]
    rcases (addressed.reached n _ region found made).2 with
      ⟨same, _⟩ | ⟨_, _, m, same, stem, parent⟩
    · simp at same
    · obtain ⟨rfl, -⟩ := List.append_inj' same rfl
      exact ⟨m, stem, parent⟩

theorem LaidOut.recordsCalls (laid : tree.LaidOut file code content)
    (addressed : Addressed content addresses) {tokens : List TokenTree}
    (scanned : ofText? code = some tokens) (sourced : ∀ i ∈ content, Sourced tokens .module i) :
    tree.RecordsCalls file code content addresses := by
  intro n address kind members found reaches s member call context made
  have inside := (List.getElem?_eq_some_iff.mp found).1
  rw [addressed.length] at inside
  have region := List.getElem?_eq_getElem inside
  obtain ⟨rfl, rfl⟩ := reaches.unique (addressed.reached n address _ found region).1
  have top : ∀ t ∈ content.map Statement.item, SourcedIn tokens .module t := by
    intro t member
    obtain ⟨i, among, rfl⟩ := List.mem_map.mp member
    exact sourced i among
  have stands : CallStands tokens call := (reaches.sourced top s member).call made
  obtain ⟨invocation, given⟩ := stands.invocation scanned file context
  obtain ⟨p, placed, here, same, rfl⟩ := member_placed region member
  refine ⟨invocation, given, ?_⟩
  rw [laid.invocations]
  refine List.mem_filterMap.mpr ⟨p, placed, ?_⟩
  rw [p.invocation?_eq, here, same, made]
  exact congrArg (fun read => read.toOption.join) given

/-- The scopes of the tree of a file, before and after any requests, are what is reached from its
root, each at an address of its own. Where the text that is cut is the one that was scanned, every
invocation that stands directly in one of them is recorded. -/
theorem served_scopes_reached {source : List Char} {parsed last : TracedTree}
    {requests : List Request} {answers : List Answer} (accepted : parse file source = .ok parsed)
    (served : parsed.serveAll requests = .ok (last, answers)) :
    ∃ content addresses, parseFile (codeOf source) = .ok content ∧
      last.tree.ScopesReached content addresses ∧
      (stripPreamble source = codeOf source →
        last.tree.RecordsCalls file (stripPreamble source) content addresses) := by
  obtain ⟨content, read, rfl⟩ := ofItems_of_parse accepted
  obtain ⟨-, laid, -⟩ := served_tree_consistent served
  obtain ⟨addresses, addressed⟩ := exists_addressed content
  refine ⟨content, addresses, read, laid.scopesReached addressed, fun same => ?_⟩
  obtain ⟨tokens, scanned, sourced⟩ := sourced_of_parseFile read
  rw [← same] at scanned
  exact laid.recordsCalls addressed scanned sourced

/-- A module with an implementation whose function holds another one, and a call in each body. -/
theorem served_scopes_reached_nested :
    let source := "mod m{impl S{fn f(){m!();fn g(){n!{}}}}}".toList
    ∃ parsed last answers content addresses, parse "a.rs" source = .ok parsed ∧
      parsed.serveAll [.expandAll] = .ok (last, answers) ∧
      parseFile (codeOf source) = .ok content ∧ last.tree.ScopesReached content addresses ∧
      addresses.length = 4 ∧
      last.tree.RecordsCalls "a.rs" (stripPreamble source) content addresses := by
  intro source
  have evaluated : (parse "a.rs" source).toOption.map
      (fun t => (t.tree.expansionAborts, t.tree.expansions, t.expanded.tree.scopes.size)) =
      some (false, none, 4) := by
    decide +kernel
  obtain ⟨parsed, read, found⟩ := Option.map_eq_some_iff.mp evaluated
  obtain ⟨finished, found⟩ := Prod.mk.inj found
  obtain ⟨fresh, size⟩ := Prod.mk.inj found
  have accepted := Attempt.of_toOption read
  have served := TracedTree.serveAll_of_fresh fresh List.not_mem_nil []
  rw [finished] at served
  obtain ⟨content, addresses, items, reached, calls⟩ := served_scopes_reached accepted served
  exact ⟨parsed, _, _, content, addresses, accepted, served, items, reached,
    reached.size.trans size, calls rfl⟩

/-- The function of a trait has no scope and its call is not recorded, unlike that of an
implementation. -/
theorem trait_function_not_entered :
    (parse "a.rs" "trait T \x7b fn f() \x7b m!(); \x7d \x7d".toList).toOption.map
        (fun t => (t.tree.scopes.shape, t.tree.invocations.map fun r => r.invocation.source)) =
      some ([(.module, none)], []) ∧
    (parse "a.rs" "impl T \x7b fn f() \x7b m!(); \x7d \x7d".toList).toOption.map
        (fun t => (t.tree.scopes.shape, t.tree.invocations.map fun r => r.invocation.source)) =
      some ([(.module, none), (.block, some ⟨0⟩)], ["m!()"]) := by
  constructor <;> decide +kernel

end SourceTree

end MacroExpansion
