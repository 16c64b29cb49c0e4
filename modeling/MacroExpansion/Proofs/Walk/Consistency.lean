import MacroExpansion.Proofs.Expansion.Requests
import MacroExpansion.Proofs.Walk.Placement
import MacroExpansion.Proofs.Walk.Reading
import MacroExpansion.Proofs.Walk.Soundness

/-!
# Trees are consistent

In the tree of a file the root is a module without a parent, every other scope has an older parent,
the bodies of functions are blocks, and the context of an invocation names a scope of its kind. Each
sound step keeps this so; the walk and the expansion are sound.
-/
namespace MacroExpansion

/-- What scopes, functions and contexts keep to. -/
structure SourceTree.Consistent (tree : SourceTree) : Prop where
  root : tree.scopes.kind? ScopeTree.root = some .module
  rootless : tree.scopes.parent? ScopeTree.root = none
  parent : ∀ scope kind, scope ≠ ScopeTree.root → tree.scopes.kind? scope = some kind →
    ∃ parent, tree.scopes.parent? scope = some parent ∧ parent.index < scope.index ∧
      ∃ kind, tree.scopes.kind? parent = some kind
  functions : ∀ entry ∈ tree.functions, tree.scopes.kind? entry.2 = some .block
  contexts : ∀ r ∈ tree.invocations, r.invocation.context.Names tree.scopes

theorem ScopeTree.lt_size_of_kind? {t : ScopeTree} {scope : ScopeId} {kind : ScopeKind}
    (h : t.kind? scope = some kind) : scope.index < t.size := by
  rw [kind?_eq] at h
  obtain ⟨entry, found, _⟩ := Option.map_eq_some_iff.mp h
  rw [← length_shape]
  exact (List.getElem?_eq_some_iff.mp found).1

theorem ScopeTree.get?_of_kind? {t : ScopeTree} {scope : ScopeId} {kind : ScopeKind}
    (h : t.kind? scope = some kind) : t.get? scope ≠ none := by
  intro missing
  rw [kind?, missing] at h
  cases h

namespace TracedTree

variable {t : TracedTree} {s : TreeStep}

theorem parent?_step {scope : ScopeId} {kind : ScopeKind}
    (standing : t.tree.scopes.kind? scope = some kind) (s : TreeStep) :
    (t.step s).tree.scopes.parent? scope = t.tree.scopes.parent? scope := by
  have inside : scope.index < t.tree.scopes.shape.length := by
    rw [ScopeTree.length_shape]
    exact ScopeTree.lt_size_of_kind? standing
  rw [ScopeTree.parent?_eq, ScopeTree.parent?_eq, shape_step, List.getElem?_append_left inside]

/-- A scope that a step makes is the next one, and is of the kind and within the scope that the step
names. -/
theorem opened_of_kind?_step {scope : ScopeId} {kind : ScopeKind}
    (made : (t.step s).tree.scopes.kind? scope = some kind)
    (fresh : t.tree.scopes.kind? scope = none) :
    ∃ parent, s = .addScope kind parent ∧ scope.index = t.tree.scopes.size ∧
      (t.step s).tree.scopes.parent? scope = some parent := by
  rw [ScopeTree.kind?_eq, Option.map_eq_none_iff, List.getElem?_eq_none_iff] at fresh
  rw [ScopeTree.kind?_eq, shape_step, List.getElem?_append_right fresh] at made
  rw [ScopeTree.parent?_eq, shape_step, List.getElem?_append_right fresh]
  cases s with
  | addScope kind' parent =>
    rw [ScopeTree.length_shape] at fresh made ⊢
    obtain offset | ⟨offset, positive⟩ : scope.index - t.tree.scopes.size = 0 ∨
        ∃ n, scope.index - t.tree.scopes.size = n + 1 := by
      cases scope.index - t.tree.scopes.size with
      | zero => exact Or.inl rfl
      | succ n => exact Or.inr ⟨n, rfl⟩
    · rw [offset] at made ⊢
      cases made
      exact ⟨parent, rfl, by omega, rfl⟩
    · rw [positive] at made
      cases made
  | report _ | declare _ _ | append _ _ | submodule _ | record _ _ | register _ _ => cases made

theorem functions_step {entry : Ident × ScopeId} (member : entry ∈ (t.step s).tree.functions) :
    entry ∈ t.tree.functions ∨ ∃ name body, s = .register name body ∧ entry = (name, body) := by
  cases s with
  | register name body =>
    simp only [step, register] at member
    split at member
    · exact Or.inl member
    · rcases List.mem_append.mp member with before | added
      · exact Or.inl before
      · exact Or.inr ⟨name, body, rfl, List.mem_singleton.mp added⟩
  | declare scope d =>
    obtain ⟨scopes, events, made, _⟩ := t.declare_frame scope d
    rw [step, made] at member
    exact Or.inl member
  | report _ | addScope _ _ | append _ _ | submodule _ | record _ _ => exact Or.inl member

/-- A context goes on to name its scope. -/
theorem names_run {context : InvocationContext} (h : context.Names t.tree.scopes)
    (steps : List TreeStep) : context.Names (t.run steps).tree.scopes := by
  cases context with
  | module scope | block scope => exact kind?_run h steps
  | expression => trivial

/-- What a step asks for stays there. -/
theorem sound_run (h : s.Sound t) (steps : List TreeStep) : s.Sound (t.run steps) := by
  cases s with
  | declare scope _ | addScope _ scope =>
    obtain ⟨kind, standing⟩ := h
    exact ⟨kind, kind?_run standing steps⟩
  | record invocation _ => exact names_run h steps
  | register _ body => exact kind?_run h steps
  | report event => exact h
  | append _ _ | submodule _ => trivial

theorem sound_of_forall {steps : List TreeStep} (h : ∀ s ∈ steps, s.Sound t) : t.Sound steps := by
  induction steps generalizing t with
  | nil => trivial
  | cons s rest ih =>
    exact ⟨h s List.mem_cons_self, ih fun later member =>
      sound_run (h later (List.mem_cons_of_mem s member)) [s]⟩

end TracedTree

open TracedTree

namespace SourceTree.Consistent

variable {t : TracedTree} {s : TreeStep}

theorem step (h : t.tree.Consistent) (sound : s.Sound t) : (t.step s).tree.Consistent where
  root := kind?_step h.root s
  rootless := by rw [parent?_step h.root, h.rootless]
  parent := by
    intro scope kind other made
    cases found : t.tree.scopes.kind? scope with
    | some kind' =>
      obtain ⟨parent, link, older, ⟨_, standing⟩⟩ := h.parent scope kind' other found
      exact ⟨parent, by rw [parent?_step found, link], older, _, kind?_step standing s⟩
    | none =>
      obtain ⟨parent, rfl, last, link⟩ := opened_of_kind?_step made found
      obtain ⟨_, standing⟩ := sound
      have older := ScopeTree.lt_size_of_kind? standing
      exact ⟨parent, link, by omega, _, kind?_step standing _⟩
  functions := by
    intro entry member
    rcases functions_step member with before | ⟨name, body, rfl, rfl⟩
    · exact kind?_step (h.functions entry before) s
    · exact kind?_step sound _
  contexts := by
    intro r member
    rw [invocations_step] at member
    rcases List.mem_append.mp member with before | recorded
    · exact names_run (h.contexts r before) [s]
    · cases s with
      | record invocation position =>
        rw [List.mem_singleton.mp recorded]
        exact names_run sound [.record invocation position]
      | report _ | declare _ _ | addScope _ _ | append _ _ | submodule _ | register _ _ =>
        cases recorded

theorem run (h : t.tree.Consistent) {steps : List TreeStep} (sound : t.Sound steps) :
    (t.run steps).tree.Consistent := by
  induction steps generalizing t with
  | nil => exact h
  | cons s rest ih => exact ih (h.step sound.1) sound.2

/-- Names of results are bound in the scopes that the contexts of the invocations name. -/
theorem sound_expansionSteps (h : t.tree.Consistent) : t.Sound t.tree.expansionSteps := by
  apply sound_of_forall
  intro s member
  obtain ⟨event, rfl, quiet⟩ | ⟨attempt, asked, rfl⟩ := expansionSteps_cases member
  · exact quiet
  · obtain ⟨r, recorded, asked⟩ := List.mem_flatMap.mp asked
    have named := r.context_of_mem_declarations t.tree.textual asked
    have names := h.contexts r recorded
    cases context : r.invocation.context with
    | module scope | block scope =>
      rw [context] at named names
      cases named
      exact ⟨_, names⟩
    | expression =>
      rw [context] at named
      cases named

theorem expanded {tree : SourceTree} (h : tree.Consistent) : tree.expanded.tree.Consistent := by
  have run := h.run (t := ⟨tree, []⟩) (sound_expansionSteps h)
  exact ⟨run.root, run.rootless, run.parent, run.functions, run.contexts⟩

end SourceTree.Consistent

theorem SourceTree.consistent_empty (file : String) : (empty file).Consistent where
  root := rfl
  rootless := rfl
  parent := by
    intro scope kind other standing
    have inside : scope.index < 1 := ScopeTree.lt_size_of_kind? standing
    exact absurd (congrArg ScopeId.mk (Nat.lt_one_iff.mp inside)) other
  functions := fun _ member => by cases member
  contexts := fun _ member => by cases member

theorem SourceTree.consistent_ofItems (file : String) (code : List Char) (content : List Item) :
    (ofItems file code content).tree.Consistent := by
  rw [ofItems_eq_run]
  exact Consistent.run (t := ⟨empty file, [.parsing file]⟩) (consistent_empty file)
    (sound_ofFile file code content)

/-! ## Scopes and contexts of a file -/

/-- Every name is declared in a scope that exists at that moment. -/
def TracedTree.DeclaresInScopes (t : TracedTree) (steps : List TreeStep) : Prop :=
  ∀ before scope declaration after, steps = before ++ .declare scope declaration :: after →
    (t.run before).tree.scopes.get? scope ≠ none

theorem TracedTree.Sound.declaresInScopes {t : TracedTree} {steps : List TreeStep}
    (h : t.Sound steps) : t.DeclaresInScopes steps := by
  intro before scope declaration after split
  obtain ⟨kind, standing⟩ := h.at split
  exact ScopeTree.get?_of_kind? standing

/-- It stands where only a value can: as the initial value of a variable or at the end of a body. -/
def Statement.IsValue (s : Statement) : Prop :=
  ∃ extent position call, s = .invocation extent position call ∧
    (position = .initializer ∨ position = .tail)

/-- The scopes of a tree are the regions of a file. Its invocations are those of the outline, and
the context of each is the region that it is a member of, or none for a value. -/
structure SourceTree.LaidOut (tree : SourceTree) (file : String) (code : List Char)
    (content : List Item) : Prop where
  scopes : tree.scopes.shape = (Regions.ofFile content).map fun r => (r.kind, r.parent)
  invocations : tree.invocations.map RecordedInvocation.invocation =
    (Outline.ofFile content).filterMap fun p => p.invocation? file code
  contexts : ∀ p ∈ Outline.ofFile content, ∀ invocation,
    p.invocation? file code = some invocation →
    ∃ region, (Regions.ofFile content)[p.scope.index]? = some region ∧
      p.content ∈ region.members ∧
      (p.content.IsValue → invocation.context = .expression) ∧
      (¬ p.content.IsValue → invocation.context = region.kind.itemContext p.scope)

/-- The context of an invocation tells its region, unless it is a value. -/
theorem Placed.context_of_invocation? {p : Placed} {file : String} {code : List Char}
    {invocation : MacroInvocation} {region : Region} (h : p.invocation? file code = some invocation)
    (holds : region.Holds p) :
    (p.content.IsValue → invocation.context = .expression) ∧
      (¬ p.content.IsValue → invocation.context = region.kind.itemContext p.scope) := by
  have found {call : MacroCall} {context : InvocationContext}
      (asked : (call.invocation file code context).toOption.join = some invocation) :
      invocation.context = context := by
    apply MacroCall.context_of_invocation
    rcases made : call.invocation file code context with _ | _ | _ <;> rw [made] at asked <;>
      cases asked
    rfl
  unfold Placed.invocation? at h
  split at h
  next head call placed =>
    refine ⟨fun ⟨_, _, _, value, _⟩ => ?_, fun _ => ?_⟩
    · rw [placed] at value
      cases value
    · rw [found h, holds.kind]
  next extent position call placed =>
    have block := holds.body extent position call placed
    refine ⟨fun ⟨_, _, _, value, stands⟩ => ?_, fun other => ?_⟩
    · rw [placed] at value
      cases value
      rw [found h]
      rcases stands with rfl | rfl <;> rfl
    · rw [found h, block]
      cases position with
      | statement => rfl
      | initializer => exact absurd ⟨_, _, _, placed, Or.inl rfl⟩ other
      | tail => exact absurd ⟨_, _, _, placed, Or.inr rfl⟩ other
  next => cases h

theorem SourceTree.laidOut_ofItems (file : String) (code : List Char) (content : List Item) :
    (ofItems file code content).tree.LaidOut file code content where
  scopes := by
    have opened := (follows_ofFile file code content).opened
    rw [ofItems_eq_run, shape_run, opened]
    rfl
  invocations := by
    have recorded := (follows_ofFile file code content).recorded
    rw [ofItems_eq_run, invocations_run, ← recorded]
    rfl
  contexts := by
    intro p member invocation recorded
    obtain ⟨region, found, holds⟩ := placed_in_region member
    exact ⟨region, found, holds.member, Placed.context_of_invocation? recorded holds⟩

theorem SourceTree.LaidOut.expanded {tree : SourceTree} {file : String} {code : List Char}
    {content : List Item} (h : tree.LaidOut file code content) :
    tree.expanded.tree.LaidOut file code content where
  scopes := by rw [shape_expanded, h.scopes]
  invocations := by rw [invocations_expanded, h.invocations]
  contexts := h.contexts

/-- The tree of a file, before and after any requests, is consistent, and its scopes and contexts
are those that the file lays out. Neither the walk nor the expansion ever declares a name in a scope
that is not there. -/
theorem SourceTree.served_tree_consistent {file : String} {code : List Char} {content : List Item}
    {requests : List Request} {last : TracedTree} {answers : List Answer}
    (served : (ofItems file code content).serveAll requests = .ok (last, answers)) :
    let start : TracedTree := ⟨empty file, [.parsing file]⟩
    let steps := Script.ofFile file code content
    let walked := (ofItems file code content).tree
    last.tree.Consistent ∧ last.tree.LaidOut file code content ∧
    (ofItems file code content = start.run steps ∧ start.DeclaresInScopes steps) ∧
    ∀ made, walked.expandAll = .ok made →
      made.tree.scopes = (TracedTree.run ⟨walked, []⟩ walked.expansionSteps).tree.scopes ∧
      TracedTree.DeclaresInScopes ⟨walked, []⟩ walked.expansionSteps := by
  intro start steps walked
  have consistent := consistent_ofItems file code content
  have laid := laidOut_ofItems file code content
  have fresh := expansions_ofItems file code content
  have declared : start.DeclaresInScopes steps := (sound_ofFile file code content).declaresInScopes
  have bound : ∀ made, walked.expandAll = .ok made →
      made.tree.scopes = (TracedTree.run ⟨walked, []⟩ walked.expansionSteps).tree.scopes ∧
      TracedTree.DeclaresInScopes ⟨walked, []⟩ walked.expansionSteps := by
    intro made expansion
    rw [expandAll_of_fresh fresh] at expansion
    split at expansion
    · cases expansion
    · cases expansion
      exact ⟨rfl, (Consistent.sound_expansionSteps (t := ⟨walked, []⟩) consistent).declaresInScopes⟩
  have run := ofItems_eq_run file code content
  rw [last_of_served fresh served]
  split
  · exact ⟨consistent.expanded, laid.expanded, ⟨run, declared⟩, bound⟩
  · exact ⟨consistent, laid, ⟨run, declared⟩, bound⟩

/-- A module with a function whose body starts with a value. -/
theorem SourceTree.served_tree_consistent_nested :
    let code := ['m', '!', '(', ')']
    let extent : Extent := ⟨.origin, Position.origin.after code⟩
    let head : ItemHead := ⟨[], extent, false⟩
    let call : MacroCall := ⟨⟨false, ["m"]⟩, .paren, [], extent, extent⟩
    let content : List Item :=
      [.module head "a" [.function head "f" [.invocation extent .initializer call]]]
    ∃ last answers, (ofItems "a.rs" code content).serveAll [.expandAll] = .ok (last, answers) ∧
      last.tree.Consistent ∧ last.tree.LaidOut "a.rs" code content := by
  intro code extent head call content
  have finished : (ofItems "a.rs" code content).tree.expansionAborts = false := by decide +kernel
  have served := TracedTree.serveAll_of_fresh (expansions_ofItems "a.rs" code content)
    List.not_mem_nil []
  rw [finished] at served
  obtain ⟨consistent, laid, _, _⟩ := served_tree_consistent served
  exact ⟨_, _, served, consistent, laid⟩

end MacroExpansion
