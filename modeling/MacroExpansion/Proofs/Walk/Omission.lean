import MacroExpansion.Proofs.Walk.Alignment
import MacroExpansion.Proofs.Walk.Sight

/-!
# What is left out leaves no trace

A definition or a call whose text cannot be cut out of the code is left out with a warning. A walk
with it and a walk without it make trees that differ in nothing that is looked up: scopes, bindings,
functions and invocations are the same, and the textual scopes of the invocations see the same
definitions. The walk may have made a textual scope for it, which has no definition.
-/
namespace MacroExpansion

variable {file : String} {code : List Char}

/-- A definition or a call whose text cannot be cut out of the code. -/
inductive Statement.Uncut (code : List Char) : Statement → Prop where
  | definition {head : ItemHead} {spelling : String} (cut : head.textIn? code = none) :
      Uncut code (.item (.ruleSet head spelling))
  | item {head : ItemHead} {call : MacroCall}
      (cut : Text.slice? code call.extent.start.offset call.extent.stop.offset = none) :
      Uncut code (.item (.invocation head call))
  | statement {extent : Extent} {place : CallPosition} {call : MacroCall}
      (cut : Text.slice? code call.extent.start.offset call.extent.stop.offset = none) :
      Uncut code (.invocation extent place call)

/-- The warning that a definition or a call is left out. A call of an empty path makes no
invocation, so none is missed. -/
def Statement.complaint? (file : String) : Statement → Option TreeEvent
  | .item (.ruleSet head _) => some (.leftOut (head.extent.spanIn file) .definition)
  | .item (.invocation head call) =>
    call.path.target?.map fun _ => .leftOut (head.extent.spanIn file) .invocation
  | .invocation extent _ call =>
    call.path.target?.map fun _ => .leftOut (extent.spanIn file) .invocation
  | _ => none

/-- Whether it is a call of an empty path. -/
def Statement.pathless : Statement → Bool
  | .item (.invocation _ call) | .invocation _ _ call => call.path.segments.isEmpty
  | _ => false

/-- What a walk does for a definition or a call that is left out. -/
def Statement.leavingOut (file : String) (position : Nat) (s : Statement) : List TreeStep :=
  let made : List TreeStep :=
    match s with
    | .item (.ruleSet _ _) => []
    | _ => [.append position none]
  made ++ (s.complaint? file).toList.map .report

/-- The second list is the first one without `s`, which stands in the list itself or in a module or
body within it. -/
inductive Without (s : Statement) : List Statement → List Statement → Prop where
  | here (after : List Statement) : Without s (s :: after) after
  | later (first : Statement) {list list' : List Statement} (rest : Without s list list') :
      Without s (first :: list) (first :: list')
  | module (head : ItemHead) (spelling : String) {members members' : List Item}
      (inner : Without s (members.map .item) (members'.map .item)) (after : List Statement) :
      Without s (.item (.module head spelling members) :: after)
        (.item (.module head spelling members') :: after)
  | function (head : ItemHead) (spelling : String) {body body' : List Statement}
      (inner : Without s body body') (after : List Statement) :
      Without s (.item (.function head spelling body) :: after)
        (.item (.function head spelling body') :: after)
  | implementation (head : ItemHead) (first : List (List Statement)) {body body' : List Statement}
      (inner : Without s body body') (last : List (List Statement)) (after : List Statement) :
      Without s (.item (.implementation head (first ++ body :: last)) :: after)
        (.item (.implementation head (first ++ body' :: last)) :: after)

variable {s : Statement} {list list' : List Statement}

/-! ## What is done for it -/

theorem MacroCall.invocation_of_uncut {call : MacroCall}
    (cut : Text.slice? code call.extent.start.offset call.extent.stop.offset = none)
    (context : InvocationContext) :
    call.invocation file code context =
      call.path.target?.elim (.ok none) fun _ => .error .invocation := by
  unfold invocation
  rw [cut]
  cases call.path.target? <;> rfl

theorem MacroCall.recording_of_uncut {call : MacroCall}
    (cut : Text.slice? code call.extent.start.offset call.extent.stop.offset = none)
    (context : InvocationContext) (fresh : Nat) (extent : Extent) :
    Script.recording file code context call fresh extent =
      (call.path.target?.map fun _ =>
        TreeEvent.leftOut (extent.spanIn file) .invocation).toList.map .report := by
  unfold Script.recording
  rw [invocation_of_uncut cut]
  cases call.path.target? <;> rfl

theorem MacroCall.join_invocation_of_uncut {call : MacroCall}
    (cut : Text.slice? code call.extent.start.offset call.extent.stop.offset = none)
    (context : InvocationContext) :
    (call.invocation file code context).toOption.join = none := by
  rw [invocation_of_uncut cut]
  cases call.path.target? <;> rfl

theorem TracedTree.run_reporting (t : TracedTree) (events : List TreeEvent) :
    t.run (events.map .report) = ⟨t.tree, t.events ++ events⟩ := by
  induction events generalizing t with
  | nil => rw [List.map_nil, run_nil, List.append_nil]
  | cons event rest ih =>
    rw [List.map_cons, run_cons, ih, step, report, List.append_assoc]
    rfl

namespace Statement

/-- Its steps make a textual scope and give a warning, at most. -/
theorem script_of_uncut (uncut : s.Uncut code) (here : Standpoint) (next : Supply) :
    Script.statement file code here next s = s.leavingOut file here.position := by
  cases uncut with
  | @definition head spelling cut =>
    have none_found : head.definition? file code spelling = none := by
      rw [ItemHead.definition?, cut]
      rfl
    rw [Script.statement, Script.item, none_found]
    rfl
  | item cut =>
    rw [Script.statement, Script.item, MacroCall.recording_of_uncut cut]
    rfl
  | statement cut =>
    rw [Script.statement, MacroCall.recording_of_uncut cut]
    rfl

/-- The warning is given, unless nothing is called. -/
theorem complaint_of_uncut (uncut : s.Uncut code) (named : s.pathless = false) :
    ∃ span cause, s.complaint? file = some (.leftOut span cause) := by
  have target {call : MacroCall} (named : call.path.segments.isEmpty = false) :
      ∃ name, call.path.target? = some name := by
    have last := List.getLast?_eq_some_getLast (List.isEmpty_eq_false_iff.mp named)
    exact ⟨_, by rw [MacroPath.target?, last, Option.map_some]⟩
  cases uncut with
  | definition _ => exact ⟨_, _, rfl⟩
  | item _ | statement _ =>
    obtain ⟨name, found⟩ := target named
    rw [complaint?, found]
    exact ⟨_, _, rfl⟩

theorem definition?_of_uncut (uncut : s.Uncut code) : s.definition? file code = none := by
  cases uncut with
  | definition cut =>
    rw [definition?, ItemHead.definition?, cut]
    rfl
  | item _ | statement _ => rfl

section

variable (position : Nat) (s)

theorem opened_leavingOut : (s.leavingOut file position).filterMap TreeStep.opened? = [] := by
  unfold leavingOut
  cases s.complaint? file <;> split <;> rfl

/-- The warning is all that is added to a tree, but for a textual scope. -/
theorem sameBut_leavingOut (t : TracedTree) :
    SameBut (s.complaint? file).toList (t.run (s.leavingOut file position)) t := by
  unfold leavingOut
  rw [TracedTree.run_append, TracedTree.run_reporting]
  split <;> exact ⟨rfl, rfl, rfl, t.events, [], (List.append_nil _).symm, (List.append_nil _).symm⟩

end

end Statement

/-! ## Steps -/

/-- The first steps are the second ones, but for what leaving out `s` takes, and for the numbers of
textual scopes after that. -/
def Omits (file : String) (s : Statement) (xs ys : List TreeStep) : Prop :=
  ∃ before position rest rest', xs = before ++ s.leavingOut file position ++ rest ∧
    ys = before ++ rest' ∧ Aligned rest rest'

namespace Omits

variable {xs ys us vs : List TreeStep}

theorem prepend (h : Omits file s xs ys) (steps : List TreeStep) :
    Omits file s (steps ++ xs) (steps ++ ys) := by
  obtain ⟨before, position, rest, rest', rfl, rfl, aligned⟩ := h
  refine ⟨steps ++ before, position, rest, rest', ?_, ?_, aligned⟩
  · simp only [List.append_assoc]
  · rw [List.append_assoc]

theorem append (h : Omits file s xs ys) (later : Aligned us vs) :
    Omits file s (xs ++ us) (ys ++ vs) := by
  obtain ⟨before, position, rest, rest', rfl, rfl, aligned⟩ := h
  refine ⟨before, position, rest ++ us, rest' ++ vs, ?_, ?_, aligned.append later⟩
  · simp only [List.append_assoc]
  · rw [List.append_assoc]

theorem opened_eq (h : Omits file s xs ys) :
    xs.filterMap TreeStep.opened? = ys.filterMap TreeStep.opened? := by
  obtain ⟨before, position, rest, rest', rfl, rfl, aligned⟩ := h
  rw [List.filterMap_append, List.filterMap_append, List.filterMap_append,
    Statement.opened_leavingOut, List.append_nil, aligned.opened_eq]

theorem scopes_after (h : Omits file s xs ys) (next : Supply) :
    (next.after xs).scopes = (next.after ys).scopes := by
  rw [Supply.scopes_after, Supply.scopes_after, h.opened_eq]

end Omits

section

variable (file code)

theorem Script.items_eq_statements (here : Standpoint) (next : Supply) (list : List Item) :
    items file code here next list = statements file code here next (list.map .item) := by
  induction list generalizing here next with
  | nil => rw [items, List.map_nil, statements]
  | cons i rest ih =>
    rw [items, List.map_cons, statements, statement, afterStatement, ih]

/-- What follows an item with another content is walked at other textual scopes. -/
theorem omits_behind {i i' : Item} {here : Standpoint} {next : Supply}
    (inner : Omits file s (Script.item file code here next i)
      (Script.item file code here next i')) (after : List Statement) :
    Omits file s (Script.statements file code here next (.item i :: after))
      (Script.statements file code here next (.item i' :: after)) := by
  rw [Script.statements, Script.statements, Script.statement, Script.statement]
  apply inner.append
  apply aligned_statements
  exact ⟨rfl, rfl, inner.scopes_after next⟩

theorem omits_bodies {body body' : List Statement}
    (inner : ∀ here next, Omits file s (Script.statements file code here next body)
      (Script.statements file code here next body'))
    (scope : ScopeId) (position : Nat) (first last : List (List Statement)) (next : Supply) :
    Omits file s (Script.bodies file code scope position next (first ++ body :: last))
      (Script.bodies file code scope position next (first ++ body' :: last)) := by
  induction first generalizing next with
  | nil =>
    have entered := (inner ⟨⟨next.scopes⟩, .block, next.positions⟩
      ⟨next.scopes + 1, next.positions + 1⟩).prepend
        [.addScope .block scope, .submodule position]
    rw [List.nil_append, List.nil_append, Script.bodies, Script.bodies]
    apply entered.append
    apply aligned_bodies
    exact entered.scopes_after next
  | cons other rest ih =>
    rw [List.cons_append, List.cons_append, Script.bodies, Script.bodies]
    apply Omits.prepend
    apply ih

/-- A walk without `s` does the same but for what leaving it out takes. -/
theorem omits_statements (uncut : s.Uncut code) (without : Without s list list')
    (here : Standpoint) (next : Supply) :
    Omits file s (Script.statements file code here next list)
      (Script.statements file code here next list') := by
  -- the steps are the same up to `s`; what follows stands at other textual scopes
  induction without generalizing here next with
  | here after =>
    rw [Script.statements, Statement.script_of_uncut uncut]
    refine ⟨[], here.position, _, _, rfl, rfl, ?_⟩
    apply aligned_statements
    refine ⟨rfl, rfl, ?_⟩
    rw [Supply.scopes_after, Statement.opened_leavingOut]
    rfl
  | later first rest ih =>
    rw [Script.statements, Script.statements]
    apply Omits.prepend
    apply ih
  | module head spelling inner after ih =>
    apply omits_behind
    rw [Script.item, Script.item, Script.items_eq_statements, Script.items_eq_statements]
    apply Omits.prepend
    apply ih
  | function head spelling inner after ih =>
    apply omits_behind
    rw [Script.item, Script.item]
    apply Omits.append _ (Aligned.refl _)
    apply Omits.prepend
    apply ih
  | implementation head first inner last after ih =>
    apply omits_behind
    rw [Script.item, Script.item]
    apply Omits.prepend _ [_]
    apply omits_bodies
    exact ih

/-- The walks of a file with `s` and without it. -/
theorem omits_ofFile {content content' : List Item} (uncut : s.Uncut code)
    (without : Without s (content.map .item) (content'.map .item)) :
    Omits file s (Script.ofFile file code content) (Script.ofFile file code content') := by
  unfold Script.ofFile
  rw [Script.items_eq_statements, Script.items_eq_statements]
  exact (omits_statements file code uncut without _ _).append (Aligned.refl _)

end

/-! ## Outlines -/

/-- As many regions are numbered without `s` as with it. -/
theorem Without.regions_length (uncut : s.Uncut code) (without : Without s list list')
    (scope : ScopeId) (next : Nat) :
    (Regions.statements scope next list).length = (Regions.statements scope next list').length := by
  have opened := (omits_statements "" code uncut without ⟨scope, .module, 0⟩ ⟨next, 0⟩).opened_eq
  have regions := congrArg List.length
    (follows_statements "" code ⟨scope, .module, 0⟩ ⟨next, 0⟩ [] [] list).opened
  have regions' := congrArg List.length
    (follows_statements "" code ⟨scope, .module, 0⟩ ⟨next, 0⟩ [] [] list').opened
  rw [List.length_map] at regions regions'
  rw [← regions, ← regions', opened]

theorem Statement.alike_of_uncut (uncut : s.Uncut code) (scope : ScopeId) (kind : ScopeKind)
    (next : Nat) (levels : List (List Statement)) :
    Outline.Alike file code (Outline.statement scope kind next levels s) [] := by
  have passed {p : Placed} (nothing : p.invocation? file code = none) :
      Outline.Alike file code [p] [] := by
    simp [Outline.Alike, Placed.told?, nothing]
  cases uncut with
  | definition _ =>
    simp only [Outline.statement, Outline.item]
    exact passed rfl
  | item cut =>
    simp only [Outline.statement, Outline.item]
    exact passed (MacroCall.join_invocation_of_uncut cut _)
  | statement cut =>
    rw [Outline.statement]
    exact passed (MacroCall.join_invocation_of_uncut cut _)

theorem Statement.regions_of_uncut (uncut : s.Uncut code) (scope : ScopeId) (next : Nat) :
    Regions.statement scope next s = [] := by
  cases uncut <;> simp only [Regions.statement, Regions.item]

section

variable {before before' : List Statement} {outer outer' : List (List Statement)}

/-- Items that go for each other leave what follows them as it is. -/
theorem alike_behind {i i' : Item} (uncut : s.Uncut code) (without : Without s [.item i] [.item i'])
    (scope : ScopeId) (kind : ScopeKind) (next : Nat)
    (same : inSight file code (before :: outer) = inSight file code (before' :: outer'))
    (first : Outline.Alike file code (Outline.item scope kind next (before :: outer) i)
      (Outline.item scope kind next (before' :: outer') i'))
    (defines : Statement.definition? file code (.item i) =
      Statement.definition? file code (.item i')) (after : List Statement) :
    Outline.Alike file code (Outline.statements scope kind next before outer (.item i :: after))
      (Outline.statements scope kind next before' outer' (.item i' :: after)) := by
  -- the regions of what follows have the same numbers
  have numbered := without.regions_length uncut scope next
  simp only [Regions.statements, Regions.statement, List.append_nil] at numbered
  simp only [Outline.statements, Outline.statement, Regions.statement, numbered]
  apply first.append
  apply alike_statements
  rw [inSight_snoc, inSight_snoc, same, defines]

theorem alike_bodies_without {body body' : List Statement} (uncut : s.Uncut code)
    (without : Without s body body')
    (same : inSight file code outer = inSight file code outer')
    (inner : ∀ next, Outline.Alike file code
      (Outline.statements ⟨next⟩ .block (next + 1) [] outer body)
      (Outline.statements ⟨next⟩ .block (next + 1) [] outer' body'))
    (scope : ScopeId) (first last : List (List Statement)) (next : Nat) :
    Outline.Alike file code (Outline.bodies next outer scope (first ++ body :: last))
      (Outline.bodies next outer' scope (first ++ body' :: last)) := by
  induction first generalizing next with
  | nil =>
    rw [List.nil_append, List.nil_append, Outline.bodies, Outline.bodies,
      without.regions_length uncut]
    apply (inner next).append
    exact alike_bodies _ _ _ same scope last
  | cons other rest ih =>
    rw [List.cons_append, List.cons_append, Outline.bodies, Outline.bodies]
    apply Outline.Alike.append
    · exact alike_statements _ _ _ [] [] _ _ same other
    · apply ih

/-- The outlines with `s` and without it. -/
theorem alike_without (uncut : s.Uncut code) (without : Without s list list') (scope : ScopeId)
    (kind : ScopeKind) (next : Nat)
    (same : inSight file code (before :: outer) = inSight file code (before' :: outer')) :
    Outline.Alike file code (Outline.statements scope kind next before outer list)
      (Outline.statements scope kind next before' outer' list') := by
  -- what stands before may differ by `s`, which defines nothing
  induction without generalizing scope kind next before before' outer outer' with
  | here after =>
    rw [Outline.statements, Statement.regions_of_uncut uncut]
    apply (Statement.alike_of_uncut uncut scope kind next _).append
    apply alike_statements
    rw [inSight_snoc, Statement.definition?_of_uncut uncut]
    exact same
  | later first rest ih =>
    rw [Outline.statements, Outline.statements]
    apply Outline.Alike.append
    · exact alike_statement scope kind next _ _ same first
    · apply ih
      rw [inSight_snoc, inSight_snoc, same]
  | module head spelling inner after ih =>
    apply alike_behind uncut (.module head spelling inner []) scope kind next same _ rfl
    rw [Outline.item, Outline.item, Outline.items_eq_statements, Outline.items_eq_statements]
    apply Outline.Alike.cons rfl
    exact ih _ _ _ same
  | function head spelling inner after ih =>
    apply alike_behind uncut (.function head spelling inner []) scope kind next same _ rfl
    rw [Outline.item, Outline.item]
    apply Outline.Alike.cons rfl
    exact ih _ _ _ same
  | implementation head first inner last after ih =>
    apply alike_behind uncut (.implementation head first inner last []) scope kind next same _ rfl
    rw [Outline.item, Outline.item]
    apply Outline.Alike.cons rfl
    exact alike_bodies_without uncut inner same (fun next => ih _ _ _ same) scope first last next

/-- The outlines of a file with `s` and without it. -/
theorem alike_ofFile {content content' : List Item} (uncut : s.Uncut code)
    (without : Without s (content.map .item) (content'.map .item)) :
    Outline.Alike file code (Outline.ofFile content) (Outline.ofFile content') := by
  unfold Outline.ofFile
  rw [Outline.items_eq_statements, Outline.items_eq_statements]
  exact alike_without uncut without _ _ _ rfl

end

/-! ## Lookups -/

/-- Trees that are the same in all that is looked up: scopes, bindings, functions, invocations, and
what these see. In the work on the first, `extra` happened in addition. -/
structure Untraced (extra : List TreeEvent) (t t' : TracedTree) : Prop
    extends SameBut extra t t' where
  lookups : List.Forall₂
    (fun r r' => ∀ name, t.tree.textual.lookup r.position name =
      t'.tree.textual.lookup r'.position name)
    t.tree.invocations t'.tree.invocations

namespace SourceTree

/-- At the end of the walks, the invocations see the same. -/
theorem lookups_without {content content' : List Item} (uncut : s.Uncut code)
    (without : Without s (content.map .item) (content'.map .item)) :
    List.Forall₂
      (fun r r' => (ofItems file code content).tree.textual.lookup r.position =
        (ofItems file code content').tree.textual.lookup r'.position)
      (ofItems file code content).tree.invocations
      (ofItems file code content').tree.invocations := by
  have told : List.map _ _ = List.map _ _ := (invocations_told file code content).trans
    ((alike_ofFile uncut without).trans (invocations_told file code content').symm)
  rw [← List.forall₂_eq_eq_eq, List.forall₂_map_left_iff, List.forall₂_map_right_iff] at told
  exact told.imp fun r r' same => congrArg Prod.snd same

/-- Two walks that come to the same lookups see the same at moments when as many invocations are
recorded. -/
theorem lookups_at_moment {content content' : List Item} {done left done' left' : List TreeStep}
    (split : Script.ofFile file code content = done ++ left)
    (split' : Script.ofFile file code content' = done' ++ left')
    (last : List.Forall₂
      (fun r r' => (ofItems file code content).tree.textual.lookup r.position =
        (ofItems file code content').tree.textual.lookup r'.position)
      (ofItems file code content).tree.invocations
      (ofItems file code content').tree.invocations)
    (level : (done.filterMap TreeStep.recorded?).length =
      (done'.filterMap TreeStep.recorded?).length) :
    List.Forall₂
      (fun r r' => ∀ name, (TextualScopes.empty.run done).lookup r.position name =
        (TextualScopes.empty.run done').lookup r'.position name)
      (done.filterMap TreeStep.recorded?) (done'.filterMap TreeStep.recorded?) := by
  rw [invocations_ofItems, invocations_ofItems, split, split', List.filterMap_append,
    List.filterMap_append] at last
  have first := List.forall₂_take (done.filterMap TreeStep.recorded?).length last
  rw [List.take_left, List.take_left' level.symm] at first
  rw [List.forall₂_iff_zip] at first ⊢
  refine ⟨first.1, fun {r r'} pair name => ?_⟩
  obtain ⟨member, member'⟩ := List.of_mem_zip pair
  rw [lookup_at_moment split member, lookup_at_moment split' member', first.2 pair]

/-- Two walks are compared after as many steps each behind what is left out in the first. -/
theorem untraced_at_moment {content content' : List Item} {before rest rest' : List TreeStep}
    {position : Nat} (uncut : s.Uncut code)
    (without : Without s (content.map .item) (content'.map .item))
    (split : Script.ofFile file code content = before ++ s.leavingOut file position ++ rest)
    (split' : Script.ofFile file code content' = before ++ rest') (aligned : Aligned rest rest')
    (n : Nat) :
    let start : TracedTree := ⟨empty file, [.parsing file]⟩
    Untraced (s.complaint? file).toList
      (start.run (before ++ s.leavingOut file position ++ rest.take n))
      (start.run (before ++ rest'.take n)) := by
  intro start
  have same : SameBut (s.complaint? file).toList
      (start.run (before ++ s.leavingOut file position ++ rest.take n))
      (start.run (before ++ rest'.take n)) := by
    rw [TracedTree.run_append, TracedTree.run_append, TracedTree.run_append]
    exact (s.sameBut_leavingOut position _).run (aligned.take n)
  have upto : Script.ofFile file code content =
      before ++ s.leavingOut file position ++ rest.take n ++ rest.drop n := by
    rw [split, List.append_assoc _ (rest.take n), List.take_append_drop]
  have upto' : Script.ofFile file code content' = before ++ rest'.take n ++ rest'.drop n := by
    rw [split', List.append_assoc, List.take_append_drop]
  -- as many invocations are recorded by then in both
  have level := congrArg List.length same.invocations
  simp only [TracedTree.invocations_run, List.length_map, List.length_append,
    Nat.add_left_cancel_iff] at level
  refine ⟨same, ?_⟩
  simp only [TracedTree.invocations_run, TracedTree.textual_run]
  exact lookups_at_moment upto upto' (lookups_without uncut without) level

/-- A definition or a call whose text cannot be cut out of the code leaves no trace, wherever it
stands: a walk without it makes a tree with the same scopes, bindings, functions and invocations,
and these see the same. So it is from the moment on that it is passed, after any number of further
steps. All that is added is a warning, if there is a path that is called. -/
theorem uncut_leaves_no_trace (file : String) (code : List Char) (content content' : List Item)
    (s : Statement) (uncut : s.Uncut code)
    (without : Without s (content.map .item) (content'.map .item)) :
    let start : TracedTree := ⟨empty file, [.parsing file]⟩
    let warning := (s.complaint? file).toList
    (s.pathless = false → ∃ span cause, warning = [.leftOut span cause]) ∧
    Untraced warning (ofItems file code content) (ofItems file code content') ∧
    ∃ before position rest rest',
      let passed := before ++ s.leavingOut file position
      ofItems file code content = start.run (passed ++ rest) ∧
      ofItems file code content' = start.run (before ++ rest') ∧
      rest.length = rest'.length ∧
      ∀ n, Untraced warning (start.run (passed ++ rest.take n))
        (start.run (before ++ rest'.take n)) := by
  intro start warning
  obtain ⟨before, position, rest, rest', split, split', aligned⟩ :=
    omits_ofFile file code uncut without
  have moment (n : Nat) :
      Untraced warning (start.run (before ++ s.leavingOut file position ++ rest.take n))
        (start.run (before ++ rest'.take n)) :=
    untraced_at_moment uncut without split split' aligned n
  have walked : ofItems file code content =
      start.run (before ++ s.leavingOut file position ++ rest) := by
    rw [ofItems_eq_run, split]
  have walked' : ofItems file code content' = start.run (before ++ rest') := by
    rw [ofItems_eq_run, split']
  refine ⟨?_, ?_, before, position, rest, rest', walked, walked', aligned.length_eq, moment⟩
  · intro named
    obtain ⟨span, cause, given⟩ := Statement.complaint_of_uncut uncut named
    exact ⟨span, cause, congrArg Option.toList given⟩
  · have last := moment rest.length
    rwa [List.take_length, aligned.length_eq, List.take_length, ← walked, ← walked'] at last

/-- A call past the end of the code, in a body between a definition and a call that sees it. -/
theorem uncut_leaves_no_trace_in_body :
    let rule := "macro_rules!m{()=>{}}".toList
    let code := rule ++ "m!()".toList
    let there := Position.origin.after rule
    let extent : Extent := ⟨there, Position.origin.after code⟩
    let past : Extent := ⟨there, Position.origin.after (code ++ "m!()".toList)⟩
    let definition : Item := .ruleSet ⟨[], ⟨.origin, there⟩, false⟩ "m"
    let call (extent : Extent) : Statement :=
      .invocation extent .statement ⟨⟨false, ["m"]⟩, .paren, [], extent, extent⟩
    let body (statements : List Statement) : Item := .function ⟨[], extent, false⟩ "f" statements
    let content := [definition, body [call past, call extent]]
    let content' := [definition, body [call extent]]
    (call past).Uncut code ∧
    Without (call past) (content.map .item) (content'.map .item) ∧
    ∃ span cause, Untraced [.leftOut span cause] (ofItems "a.rs" code content)
      (ofItems "a.rs" code content') := by
  intro rule code there extent past definition call body content content'
  have uncut : (call past).Uncut code := .statement (by decide +kernel)
  have without : Without (call past) (content.map .item) (content'.map .item) :=
    .later _ (.function _ _ (.here _) _)
  obtain ⟨warned, same, _⟩ :=
    uncut_leaves_no_trace "a.rs" code content content' (call past) uncut without
  obtain ⟨span, cause, warning⟩ := warned rfl
  exact ⟨uncut, without, span, cause, warning ▸ same⟩

end SourceTree

end MacroExpansion
