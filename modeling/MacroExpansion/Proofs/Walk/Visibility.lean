import MacroExpansion.Proofs.Expansion.Outcomes
import MacroExpansion.Proofs.TextualScope.Growth
import MacroExpansion.Proofs.Walk.Execution
import MacroExpansion.Proofs.Walk.Reading

/-!
# Definitions are visible lexically

The textual scope that is recorded with an invocation sees the definitions that stand before it,
those before what encloses it, and so on outwards; the nearest of a name counts. It sees them at the
moment it is recorded and at the end of the walk. The walk carries a set of textual scopes that are
in use: those recorded so far, and those that it stands at or will come back to. It appends only
where no scope in use comes after, so the links that it changes are not seen from any of these.
-/
namespace MacroExpansion

variable {file : String} {code : List Char}

/-- The definitions in sight behind some lists of statements, the nearest first. -/
def inSight (file : String) (code : List Char) (levels : List (List Statement)) :
    List MacroDefinition :=
  levels.flatMap fun before => (before.filterMap (Statement.definition? file code)).reverse

theorem inSight_snoc (before : List Statement) (s : Statement) (outer : List (List Statement)) :
    inSight file code ((before ++ [s]) :: outer) =
      (s.definition? file code).toList ++ inSight file code (before :: outer) := by
  unfold inSight
  rw [List.flatMap_cons, List.flatMap_cons, List.filterMap_append, List.reverse_append,
    List.append_assoc]
  cases found : s.definition? file code <;> simp [found]

/-- The nearest definition in sight is the last one of the innermost list that has one. -/
theorem find?_inSight (name : Ident) (levels : List (List Statement)) :
    (inSight file code levels).find? (fun d => d.name = name) =
      levels.findSome? (lastDefinition? file code name) := by
  unfold inSight lastDefinition?
  rw [List.find?_flatMap]
  congr 1
  funext before
  rw [List.getLast?_eq_head?_reverse, ← List.filter_reverse, List.head?_filter]

namespace TextualScopes

/-- The invocations that some steps record, each with the textual scopes of that moment. -/
def moments (t : TextualScopes) : List TreeStep → List (RecordedInvocation × TextualScopes)
  | [] => []
  | s :: rest => (s.recorded?.map fun recorded => (recorded, t)).toList ++ (t.step s).moments rest

theorem moments_append (t : TextualScopes) (xs ys : List TreeStep) :
    t.moments (xs ++ ys) = t.moments xs ++ (t.run xs).moments ys := by
  induction xs generalizing t with
  | nil => rfl
  | cons s rest ih => rw [List.cons_append, moments, moments, ih, List.append_assoc, run_cons]

theorem fst_moments (t : TextualScopes) (steps : List TreeStep) :
    (t.moments steps).map Prod.fst = steps.filterMap TreeStep.recorded? := by
  induction steps generalizing t with
  | nil => rfl
  | cons s rest ih =>
    rw [moments, List.map_append, ih, List.filterMap_cons]
    cases s.recorded? <;> rfl

theorem size_step (t : TextualScopes) (next : Supply) (numbered : t.size = next.positions)
    (s : TreeStep) : (t.step s).size = (next.step s).positions := by
  cases s <;> simp [step, Supply.step, numbered]

theorem size_run (t : TextualScopes) (next : Supply) (numbered : t.size = next.positions)
    (steps : List TreeStep) : (t.run steps).size = (next.after steps).positions := by
  induction steps generalizing t next with
  | nil => exact numbered
  | cons s rest ih => exact ih _ _ (size_step t next numbered s)

theorem size_le_run (t : TextualScopes) (steps : List TreeStep) : t.size ≤ (t.run steps).size := by
  induction steps generalizing t with
  | nil => exact Nat.le_refl _
  | cons s rest ih =>
    have first : t.size ≤ (t.step s).size := by cases s <;> simp [step]
    exact first.trans (ih _)

/-- Steps that make no textual scope change none. -/
theorem run_eq_of_size (t : TextualScopes) (steps : List TreeStep)
    (same : (t.run steps).size = t.size) : t.run steps = t := by
  induction steps generalizing t with
  | nil => rfl
  | cons s rest ih =>
    rw [run_cons] at same ⊢
    have later := size_le_run (t.step s) rest
    have still : t.step s = t := by
      cases s with
      | append position definition =>
        rw [step, size_append] at later
        exact absurd later (by rw [← step, same]; omega)
      | submodule position =>
        rw [step, size_submodule] at later
        exact absurd later (by rw [← step, same]; omega)
      | report _ | declare _ _ | addScope _ _ | record _ _ | register _ _ => rfl
    rw [still] at same ⊢
    exact ih t same

end TextualScopes

open TextualScopes

/-- An invocation was recorded for something placed, with a textual scope that saw what is in sight
there and still does. -/
structure RecordedFor (file : String) (code : List Char) (t : TextualScopes) (used : Nat → Prop)
    (moment : RecordedInvocation × TextualScopes) (p : Placed) : Prop where
  invocation : p.invocation? file code = some moment.1.invocation
  inUse : used moment.1.position
  seen : moment.2.Sees moment.1.position (inSight file code p.levels)
  sees : t.Sees moment.1.position (inSight file code p.levels)

/-- At every moment on the way, the scopes in use before and those recorded so far see what they see
in the end. -/
def Steady (t : TextualScopes) (used : Nat → Prop) (steps : List TreeStep) : Prop :=
  ∀ done left, steps = done ++ left → ∀ x,
    used x ∨ x ∈ (done.filterMap TreeStep.recorded?).map RecordedInvocation.position →
    ∀ definitions, (t.run steps).Sees x definitions → (t.run done).Sees x definitions

/-- Steps that append to `origin` and to new scopes only and record what an outline holds. -/
structure Lexical (file : String) (code : List Char) (origin : Nat) (t : TextualScopes)
    (used : Nat → Prop) (steps : List TreeStep) (placed : List Placed) (used' : Nat → Prop) :
    Prop where
  kept : Kept (t.run steps) used'
  grows : Grows origin t used (t.run steps) used'
  recorded : List.Forall₂ (RecordedFor file code (t.run steps) used') (t.moments steps)
    (placed.filter fun p => (p.invocation? file code).isSome)
  steady : Steady t used steps

/-- A position that a walk may go on from, with the definitions that are in sight there. -/
structure Stands (t : TextualScopes) (used : Nat → Prop) (position : Nat)
    (definitions : List MacroDefinition) : Prop where
  free : Open t used position
  sees : t.Sees position definitions

variable {t t' : TextualScopes} {used used' used'' : Nat → Prop} {origin later position : Nat}
  {definitions : List MacroDefinition} {xs ys : List TreeStep} {ps qs : List Placed}

theorem RecordedFor.grows {m : RecordedInvocation × TextualScopes} {p : Placed}
    (h : RecordedFor file code t used m p) (g : Grows origin t used t' used') :
    RecordedFor file code t' used' m p :=
  ⟨h.invocation, g.older _ h.inUse, h.seen, g.sees _ _ h.inUse h.sees⟩

theorem Stands.grows (h : Stands t used position definitions) (kept : Kept t used)
    (g : Grows origin t used t' used') (other : position ≠ origin) :
    Stands t' used' position definitions :=
  ⟨h.free.grows kept g other, g.sees _ _ h.free.inUse h.sees⟩

namespace Steady

theorem of_still (run : t.run xs = t) : Steady t used xs := by
  intro done left parts x _ definitions sees
  have size : (t.run done).size = t.size := by
    have before := t.size_le_run done
    have after := (t.run done).size_le_run left
    rw [← TextualScopes.run_append, ← parts, run] at after
    omega
  rw [run] at sees
  rwa [t.run_eq_of_size done size]

theorem single {s : TreeStep} (kept : Kept t used) (g : Grows origin t used (t.run [s]) used') :
    Steady t used [s] := by
  intro done left parts x among definitions sees
  cases done with
  | nil =>
    rcases among with inUse | recorded
    · exact g.seen kept inUse sees
    · cases recorded
  | cons first more =>
    obtain ⟨rfl, nothing⟩ := List.cons.inj parts
    obtain ⟨rfl, rfl⟩ := List.append_eq_nil_iff.mp nothing.symm
    exact sees

end Steady

namespace Lexical

theorem inUse_of_recorded (h : Lexical file code origin t used xs ps used') {x : Nat}
    (recorded : x ∈ (xs.filterMap TreeStep.recorded?).map RecordedInvocation.position) :
    used' x := by
  have inUse : ∀ m ∈ t.moments xs, used' m.1.position :=
    ((List.forall₂_and_left _ _).mp (h.recorded.imp fun m p r => ⟨r.inUse, r⟩)).1
  rw [← fst_moments t, List.map_map, List.mem_map] at recorded
  obtain ⟨m, member, rfl⟩ := recorded
  exact inUse m member

theorem append (first : Lexical file code origin t used xs ps used')
    (second : Lexical file code later (t.run xs) used' ys qs used'')
    (starts : later = origin ∨ t.size ≤ later) :
    Lexical file code origin t used (xs ++ ys) (ps ++ qs) used'' where
  kept := by
    rw [TextualScopes.run_append]
    exact second.kept
  grows := by
    rw [TextualScopes.run_append]
    exact first.grows.trans second.grows starts
  recorded := by
    rw [TextualScopes.run_append, moments_append, List.filter_append]
    refine List.rel_append ?_ second.recorded
    exact first.recorded.imp fun _ _ h => h.grows second.grows
  steady := by
    intro done left parts x among definitions sees
    rw [TextualScopes.run_append] at sees
    rcases List.append_eq_append_iff.mp parts with ⟨more, rfl, rfl⟩ | ⟨more, rfl, rfl⟩
    · -- a moment of the second steps
      rw [TextualScopes.run_append]
      refine second.steady more left rfl x ?_ definitions sees
      rw [List.filterMap_append, List.map_append, List.mem_append] at among
      rcases among with inUse | recorded | recorded
      · exact Or.inl (first.grows.older x inUse)
      · exact Or.inl (first.inUse_of_recorded recorded)
      · exact Or.inr recorded
    · -- a moment of the first steps, at the end of which the scope is in use
      have inUse : used' x := by
        rcases among with inUse | recorded
        · exact first.grows.older x inUse
        · refine first.inUse_of_recorded ?_
          rw [List.filterMap_append, List.map_append]
          exact List.mem_append_left _ recorded
      exact first.steady done more rfl x among definitions
        (second.grows.seen first.kept inUse sees)

/-- Steps that leave the textual scopes as they are and record nothing. -/
theorem still (kept : Kept t used) (run : t.run xs = t) (silent : t.moments xs = [])
    (nothing : ∀ p ∈ ps, p.invocation? file code = none) :
    Lexical file code origin t used xs ps used where
  kept := by
    rw [run]
    exact kept
  grows := by
    rw [run]
    exact Grows.refl origin t used
  recorded := by
    have empty : ps.filter (fun p => (p.invocation? file code).isSome) = [] := by
      apply List.filter_eq_nil_iff.mpr
      intro p member
      simp [nothing p member]
    rw [silent, empty]
    exact .nil
  steady := .of_still run

/-- Something placed that makes no invocation and no textual scope. -/
theorem quiet {p : Placed} (kept : Kept t used) (run : t.run xs = t) (silent : t.moments xs = [])
    (nothing : p.invocation? file code = none) : Lexical file code origin t used xs [p] used :=
  .still kept run silent fun q member => by
    rw [List.mem_singleton.mp member]
    exact nothing

/-- A walk that goes on in newer scopes leaves the scope that it made first as it stands. -/
theorem append_inner (first : Lexical file code origin t used xs ps used')
    (outside : Stands (t.run xs) used' t.size definitions)
    (inner : Lexical file code later (t.run xs) used' ys qs used'') (newer : t.size < later) :
    Lexical file code origin t used (xs ++ ys) (ps ++ qs) used'' ∧
      Stands (t.run (xs ++ ys)) used'' t.size definitions := by
  constructor
  · exact first.append inner (Or.inr (Nat.le_of_lt newer))
  · rw [TextualScopes.run_append]
    exact outside.grows first.kept inner.grows (Nat.ne_of_lt newer)

theorem appended (stands : Stands t used position definitions) (kept : Kept t used)
    (d : Option MacroDefinition) :
    Lexical file code position t used [.append position d] [] (With used t.size) :=
  ⟨stands.free.kept_append kept d, stands.free.grows_append kept d, .nil,
    .single kept (stands.free.grows_append kept d)⟩

/-- A new scope that is not gone on from. -/
theorem passed (stands : Stands t used position definitions) (kept : Kept t used)
    (d : Option MacroDefinition) :
    Lexical file code position t used [.append position d] [] used :=
  ⟨stands.free.kept_unused kept d, stands.free.grows_unused kept d, .nil,
    .single kept (stands.free.grows_unused kept d)⟩

theorem enclosed (kept : Kept t used) (inUse : used position) (origin : Nat) :
    Lexical file code origin t used [.submodule position] [] (With used t.size) :=
  ⟨kept.kept_submodule inUse, kept.grows_submodule origin position, .nil,
    .single kept (kept.grows_submodule origin position)⟩

/-- A scope of the file is made before the textual scope of its content. -/
theorem opening (h : Lexical file code origin t used xs ps used') (kept : Kept t used)
    (kind : ScopeKind) (parent : ScopeId) :
    Lexical file code origin t used (.addScope kind parent :: xs) ps used' := by
  have opens : Lexical file code origin t used [.addScope kind parent] [] used :=
    .still kept rfl rfl fun _ member => by cases member
  exact opens.append h (Or.inl rfl)

/-- A call at a textual scope that is in use. -/
theorem recording {p : Placed} {context : InvocationContext} {call : MacroCall} {extent : Extent}
    (kept : Kept t used) (inUse : used position)
    (sees : t.Sees position (inSight file code p.levels))
    (same : p.invocation? file code = (call.invocation file code context).toOption.join) :
    Lexical file code origin t used (Script.recording file code context call position extent) [p]
      used := by
  unfold Script.recording
  rcases found : call.invocation file code context with cause | _ | invocation <;>
    rw [found] at same
  · exact quiet kept rfl rfl same
  · exact quiet kept rfl rfl same
  · refine ⟨kept, Grows.refl origin t used, ?_, .of_still rfl⟩
    have kept_in : [p].filter (fun q => (q.invocation? file code).isSome) = [p] := by
      rw [List.filter_singleton, same]
      rfl
    rw [kept_in]
    exact .cons ⟨same, inUse, sees, sees⟩ .nil

end Lexical

namespace Stands

theorem appended (h : Stands t used position definitions) (kept : Kept t used)
    (d : Option MacroDefinition) :
    Stands (t.run [.append position d]) (With used t.size) t.size (d.toList ++ definitions) :=
  ⟨h.free.open_append kept d, h.free.sees_append kept d h.sees⟩

theorem passed (h : Stands t used position definitions) (kept : Kept t used)
    (d : Option MacroDefinition) : Stands (t.run [.append position d]) used position definitions :=
  ⟨h.free.open_unused kept d, (h.free.grows_unused kept d).sees _ _ h.free.inUse h.sees⟩

theorem enclosed (kept : Kept t used) (inUse : used position)
    (sees : t.Sees position definitions) :
    Stands (t.run [.submodule position]) (With used t.size) t.size definitions :=
  ⟨open_submodule t used position, kept.sees_submodule inUse sees⟩

end Stands

theorem TextualScopes.run_declaring (t : TextualScopes) (scope : ScopeId)
    (d : Option Declaration) : t.run (Script.declaring scope d) = t := by
  cases d <;> rfl

theorem TextualScopes.moments_declaring (t : TextualScopes) (scope : ScopeId)
    (d : Option Declaration) : t.moments (Script.declaring scope d) = [] := by
  cases d <;> rfl

theorem TextualScopes.run_recording (t : TextualScopes) (context : InvocationContext)
    (call : MacroCall) (extent : Extent) :
    t.run (Script.recording file code context call position extent) = t := by
  unfold Script.recording
  rcases call.invocation file code context with cause | _ | invocation <;> rfl

/-- A call, and the scope made for it that is gone on from. -/
theorem lexical_call {p : Placed} {context : InvocationContext} {call : MacroCall}
    (extent : Extent) (kept : Kept t used)
    (stands : Stands t used position (inSight file code p.levels))
    (same : p.invocation? file code = (call.invocation file code context).toOption.join) :
    Lexical file code position t used
      (.append position none :: Script.recording file code context call t.size extent) [p]
      (With used t.size) ∧
    Stands (t.run (.append position none :: Script.recording file code context call t.size extent))
      (With used t.size) t.size (inSight file code p.levels) := by
  have made : Lexical file code position t used [.append position none] [] (With used t.size) :=
    .appended stands kept none
  have there := stands.appended kept none
  constructor
  · exact made.append (.recording made.kept there.free.inUse there.sees same) (Or.inl rfl)
  · rw [TextualScopes.run_cons, TextualScopes.run_recording]
    exact there

/-- An item whose content is a region: the walk comes to the scope left behind it, and then enters
the content. -/
theorem lexical_entering {here : Standpoint} {p : Placed} (kept : Kept t used)
    (stands : Stands t used here.position definitions) (declaration : Option Declaration)
    (kind : ScopeKind) (nothing : p.invocation? file code = none) :
    ∃ used', Lexical file code here.position t used
        (Script.entering here t.size declaration kind) [p] used' ∧
      Stands (t.run (Script.entering here t.size declaration kind)) used' t.size definitions ∧
      Stands (t.run (Script.entering here t.size declaration kind)) used' (t.size + 1)
        definitions := by
  have declares : Lexical file code here.position t used (Script.declaring here.scope declaration)
      [p] used :=
    .quiet kept (t.run_declaring _ _) (t.moments_declaring _ _) nothing
  have made : Lexical file code here.position t used [.append here.position none] []
      (With used t.size) := .appended stands kept none
  have there := stands.appended kept none
  have numbered : (t.run [.append here.position none]).size = t.size + 1 := t.size_append _ _
  have submodule : Lexical file code (t.size + 1) (t.run [.append here.position none])
      (With used t.size) [.submodule t.size] [] _ := .enclosed made.kept there.free.inUse _
  have inner := Stands.enclosed made.kept there.free.inUse there.sees
  rw [numbered] at submodule inner
  have inside : Lexical file code (t.size + 1) (t.run [.append here.position none])
      (With used t.size) [.addScope kind here.scope, .submodule t.size] []
      (With (With used t.size) (t.size + 1)) :=
    submodule.opening made.kept kind here.scope
  have all := made.append inside (Or.inr (Nat.le_succ _))
  refine ⟨With (With used t.size) (t.size + 1), ?_, ?_, ?_⟩
  · refine declares.append ?_ (Or.inl rfl)
    rw [run_declaring]
    exact all
  · rw [Script.entering, TextualScopes.run_append, run_declaring]
    exact there.grows made.kept inside.grows (by omega)
  · rw [Script.entering, TextualScopes.run_append, run_declaring]
    exact inner

/-- The walk of an item records lexically what the item holds, and comes to a scope that sees the
item's own definition, if it is one, and then what was in sight. -/
def LexicalItem (file : String) (code : List Char) (here : Standpoint) (next : Supply)
    (levels : List (List Statement)) (t : TextualScopes) (used : Nat → Prop) (i : Item) : Prop :=
  ∃ used', Lexical file code here.position t used (Script.item file code here next i)
      (Outline.item here.scope here.kind next.scopes levels i) used' ∧
    Stands (t.run (Script.item file code here next i)) used'
      (Script.afterItem file code here next.positions i)
      ((Statement.definition? file code (.item i)).toList ++ inSight file code levels) ∧
    (Script.afterItem file code here next.positions i = here.position ∨
      t.size ≤ Script.afterItem file code here next.positions i)

section

variable {here : Standpoint} {next : Supply} {levels : List (List Statement)}
  (numbered : t.size = next.positions) (kept : Kept t used)
  (stands : Stands t used here.position (inSight file code levels))

include numbered kept stands

theorem lexical_ruleSet (head : ItemHead) (spelling : String) :
    LexicalItem file code here next levels t used (.ruleSet head spelling) := by
  unfold LexicalItem
  simp only [Outline.item]
  rw [Script.item, Script.afterItem, Statement.definition?]
  cases found : head.definition? file code spelling with
  | none => exact ⟨used, .quiet kept rfl rfl rfl, stands, Or.inl rfl⟩
  | some d =>
    have declares : Lexical file code here.position t used
        [.report (.foundDefinition d.name), .declare here.scope d.declaration]
        [⟨here.scope, here.kind, levels, .item (.ruleSet head spelling)⟩] used :=
      .quiet kept rfl rfl rfl
    refine ⟨With used t.size, declares.append (.appended stands kept (some d)) (Or.inl rfl), ?_,
      Or.inr (Nat.le_of_eq numbered)⟩
    rw [← numbered]
    exact stands.appended kept (some d)

theorem lexical_callItem (head : ItemHead) (call : MacroCall) :
    LexicalItem file code here next levels t used (.invocation head call) := by
  unfold LexicalItem
  simp only [Outline.item]
  rw [Script.item, Script.afterItem, ← numbered]
  cases found : call.invocation file code (here.kind.itemContext here.scope) with
  | error cause =>
    -- the scope made for the call is not gone on from
    have left : Lexical file code here.position t used [.append here.position none] [] used :=
      .passed stands kept none
    have call_left : Lexical file code here.position (t.run [.append here.position none]) used
        (Script.recording file code (here.kind.itemContext here.scope) call t.size head.extent)
        [⟨here.scope, here.kind, levels, .item (.invocation head call)⟩] used :=
      .quiet left.kept (run_recording _ _ _ _)
        (by simp [Script.recording, found, moments, TreeStep.recorded?])
        (by simp [Placed.invocation?, found, Except.toOption])
    refine ⟨used, left.append call_left (Or.inl rfl), ?_, Or.inl rfl⟩
    rw [TextualScopes.run_cons, run_recording]
    exact stands.passed kept none
  | ok result =>
    obtain ⟨recorded, there⟩ := lexical_call (p := ⟨here.scope, here.kind, levels,
      .item (.invocation head call)⟩) head.extent kept stands rfl
    exact ⟨With used t.size, recorded, there, Or.inr (Nat.le_refl _)⟩

end

section

variable (file code)

mutual

theorem lexical_item (here : Standpoint) (next : Supply) (levels : List (List Statement))
    (t : TextualScopes) (used : Nat → Prop) (numbered : t.size = next.positions)
    (kept : Kept t used) (stands : Stands t used here.position (inSight file code levels)) :
    ∀ i : Item, LexicalItem file code here next levels t used i
  | .ruleSet head spelling => lexical_ruleSet numbered kept stands head spelling
  | .invocation head call => lexical_callItem numbered kept stands head call
  | .module head spelling members => by
    obtain ⟨used₁, entered, outside, inside⟩ := lexical_entering (p := ⟨here.scope, here.kind,
        levels, .item (.module head spelling members)⟩) kept stands
      ((Item.module head spelling members).declaration? file) .module rfl
    have size := t.size_run next numbered (Script.entering here t.size
      ((Item.module head spelling members).declaration? file) .module)
    rw [Supply.after_entering] at size
    obtain ⟨used₂, content⟩ := lexical_items ⟨⟨next.scopes⟩, .module, t.size + 1⟩
      ⟨next.scopes + 1, next.positions + 2⟩ [] levels _ used₁ size entered.kept inside members
    obtain ⟨all, behind⟩ := entered.append_inner outside content (Nat.lt_succ_self _)
    rw [← numbered] at all behind
    rw [LexicalItem, Script.item, Outline.item, Script.afterItem, ← numbered]
    exact ⟨used₂, all, behind, Or.inr (Nat.le_refl _)⟩
  | .moduleElsewhere head spelling => by
    unfold LexicalItem
    simp only [Outline.item]
    rw [Script.item, Script.afterItem]
    have run : t.run (Script.declaring here.scope
        ((Item.moduleElsewhere head spelling).declaration? file) ++
          [.report (.skippedModule spelling)]) = t := by
      rw [TextualScopes.run_append, run_declaring]
      rfl
    have silent : t.moments (Script.declaring here.scope
        ((Item.moduleElsewhere head spelling).declaration? file) ++
          [.report (.skippedModule spelling)]) = [] := by
      rw [moments_append, moments_declaring]
      rfl
    refine ⟨used, .quiet kept run silent rfl, ?_, Or.inl rfl⟩
    rw [run]
    exact stands
  | .function head spelling body => by
    obtain ⟨used₁, entered, outside, inside⟩ := lexical_entering (p := ⟨here.scope, here.kind,
        levels, .item (.function head spelling body)⟩) kept stands
      ((Item.function head spelling body).declaration? file) .block rfl
    have size := t.size_run next numbered (Script.entering here t.size
      ((Item.function head spelling body).declaration? file) .block)
    rw [Supply.after_entering] at size
    obtain ⟨used₂, content⟩ := lexical_statements ⟨⟨next.scopes⟩, .block, t.size + 1⟩
      ⟨next.scopes + 1, next.positions + 2⟩ [] levels _ used₁ size entered.kept inside body
    obtain ⟨all, behind⟩ := entered.append_inner outside content (Nat.lt_succ_self _)
    have registered : Lexical file code here.position _ used₂
        [.register (.ofSpelling spelling) ⟨next.scopes⟩] [] used₂ :=
      .still all.kept rfl rfl fun _ member => by cases member
    have done := all.append registered (Or.inl rfl)
    rw [List.append_nil, ← numbered] at done
    rw [← numbered] at behind
    rw [LexicalItem, Script.item, Outline.item, Script.afterItem, ← numbered]
    refine ⟨used₂, done, ?_, Or.inr (Nat.le_refl _)⟩
    rw [TextualScopes.run_append]
    exact behind
  | .implementation head functions => by
    have made : Lexical file code here.position t used [.append here.position none]
        [⟨here.scope, here.kind, levels, .item (.implementation head functions)⟩]
        (With used t.size) := by
      have appended : Lexical file code here.position t used [.append here.position none] []
        (With used t.size) := .appended stands kept none
      exact ⟨appended.kept, appended.grows, .nil, appended.steady⟩
    have there := stands.appended kept none
    have size : (t.run [.append here.position none]).size = t.size + 1 := t.size_append _ _
    obtain ⟨used₁, content⟩ := lexical_bodies here.scope t.size ⟨next.scopes, next.positions + 1⟩
      levels _ _ (by rw [size, numbered]) made.kept there.free.inUse there.sees functions
    obtain ⟨all, behind⟩ := made.append_inner there content (by omega)
    rw [← numbered] at all behind
    rw [LexicalItem, Script.item, Outline.item, Script.afterItem, ← numbered]
    exact ⟨used₁, all, behind, Or.inr (Nat.le_refl _)⟩
  | .leaf head kind name => by
    unfold LexicalItem
    simp only [Outline.item]
    rw [Script.item, Script.afterItem]
    refine ⟨used, .quiet kept (t.run_declaring _ _) (t.moments_declaring _ _) rfl, ?_, Or.inl rfl⟩
    rw [run_declaring]
    exact stands
  | .raw head => by
    unfold LexicalItem
    simp only [Outline.item]
    rw [Script.item, Script.afterItem]
    exact ⟨used, .quiet kept rfl rfl rfl, stands, Or.inl rfl⟩
termination_by structural i => i

theorem lexical_items (here : Standpoint) (next : Supply) (before : List Statement)
    (outer : List (List Statement)) (t : TextualScopes) (used : Nat → Prop)
    (numbered : t.size = next.positions) (kept : Kept t used)
    (stands : Stands t used here.position (inSight file code (before :: outer))) :
    ∀ list : List Item, ∃ used',
      Lexical file code here.position t used (Script.items file code here next list)
        (Outline.items here.scope here.kind next.scopes before outer list) used'
  | [] => by
    rw [Script.items, Outline.items]
    exact ⟨used, .still kept rfl rfl fun _ member => by cases member⟩
  | i :: rest => by
    obtain ⟨used₁, first, there, starts⟩ :=
      lexical_item here next (before :: outer) t used numbered kept stands i
    rw [← inSight_snoc] at there
    obtain ⟨used₂, later⟩ := lexical_items
      { here with position := Script.afterItem file code here next.positions i }
      (next.after (Script.item file code here next i)) (before ++ [.item i]) outer
      (t.run (Script.item file code here next i)) used₁ (size_run t next numbered _) first.kept
      there rest
    rw [(follows_item file code here next (before :: outer) i).scopes_after] at later
    rw [Script.items, Outline.items]
    exact ⟨used₂, first.append later starts⟩
termination_by structural list => list

theorem lexical_statement (here : Standpoint) (next : Supply) (levels : List (List Statement))
    (t : TextualScopes) (used : Nat → Prop) (numbered : t.size = next.positions)
    (kept : Kept t used) (stands : Stands t used here.position (inSight file code levels)) :
    ∀ s : Statement, ∃ used',
      Lexical file code here.position t used (Script.statement file code here next s)
        (Outline.statement here.scope here.kind next.scopes levels s) used' ∧
      Stands (t.run (Script.statement file code here next s)) used'
        (Script.afterStatement file code here next.positions s)
        ((s.definition? file code).toList ++ inSight file code levels) ∧
      (Script.afterStatement file code here next.positions s = here.position ∨
        t.size ≤ Script.afterStatement file code here next.positions s)
  | .item i => by
    rw [Script.statement, Outline.statement, Script.afterStatement]
    exact lexical_item here next levels t used numbered kept stands i
  | .invocation extent place call => by
    obtain ⟨recorded, there⟩ := lexical_call (p := ⟨here.scope, here.kind, levels,
      .invocation extent place call⟩) extent kept stands rfl
    rw [Script.statement, Outline.statement, Script.afterStatement, ← numbered]
    exact ⟨With used t.size, recorded, there, Or.inr (Nat.le_refl _)⟩
termination_by structural s => s

theorem lexical_statements (here : Standpoint) (next : Supply) (before : List Statement)
    (outer : List (List Statement)) (t : TextualScopes) (used : Nat → Prop)
    (numbered : t.size = next.positions) (kept : Kept t used)
    (stands : Stands t used here.position (inSight file code (before :: outer))) :
    ∀ list : List Statement, ∃ used',
      Lexical file code here.position t used (Script.statements file code here next list)
        (Outline.statements here.scope here.kind next.scopes before outer list) used'
  | [] => by
    rw [Script.statements, Outline.statements]
    exact ⟨used, .still kept rfl rfl fun _ member => by cases member⟩
  | s :: rest => by
    obtain ⟨used₁, first, there, starts⟩ :=
      lexical_statement here next (before :: outer) t used numbered kept stands s
    rw [← inSight_snoc] at there
    obtain ⟨used₂, later⟩ := lexical_statements
      { here with position := Script.afterStatement file code here next.positions s }
      (next.after (Script.statement file code here next s)) (before ++ [s]) outer
      (t.run (Script.statement file code here next s)) used₁ (size_run t next numbered _) first.kept
      there rest
    rw [(follows_statement file code here next (before :: outer) s).scopes_after] at later
    rw [Script.statements, Outline.statements]
    exact ⟨used₂, first.append later starts⟩
termination_by structural list => list

theorem lexical_bodies (scope : ScopeId) (position : Nat) (next : Supply)
    (outer : List (List Statement)) (t : TextualScopes) (used : Nat → Prop)
    (numbered : t.size = next.positions) (kept : Kept t used) (inUse : used position)
    (sees : t.Sees position (inSight file code outer)) :
    ∀ list : List (List Statement), ∃ used',
      Lexical file code t.size t used (Script.bodies file code scope position next list)
        (Outline.bodies next.scopes outer scope list) used'
  | [] => by
    rw [Script.bodies, Outline.bodies]
    exact ⟨used, .still kept rfl rfl fun _ member => by cases member⟩
  | body :: rest => by
    have submodule : Lexical file code t.size t used [.submodule position] [] (With used t.size) :=
      .enclosed kept inUse t.size
    have opened : Lexical file code t.size t used [.addScope .block scope, .submodule position] []
        (With used t.size) :=
      submodule.opening kept .block scope
    have inner : Stands (t.run [.addScope .block scope, .submodule position]) (With used t.size)
        t.size (inSight file code ([] :: outer)) := Stands.enclosed kept inUse sees
    have size : (t.run [.addScope .block scope, .submodule position]).size =
        next.positions + 1 := by
      rw [← numbered]
      exact t.size_submodule _
    obtain ⟨used₁, content⟩ := lexical_statements ⟨⟨next.scopes⟩, .block, t.size⟩
      ⟨next.scopes + 1, next.positions + 1⟩ [] outer _ _ size opened.kept inner body
    have first := opened.append content (Or.inl rfl)
    obtain ⟨used₂, later⟩ := lexical_bodies scope position _ outer _ used₁
      (size_run t next numbered _) first.kept (first.grows.older _ inUse)
      (first.grows.sees _ _ inUse sees) rest
    rw [(follows_statements file code ⟨⟨next.scopes⟩, .block, t.size⟩
      ⟨next.scopes + 1, next.positions + 1⟩ [] outer body).scopes_after_body] at later
    rw [← numbered] at first later
    rw [Script.bodies, Outline.bodies, ← numbered]
    exact ⟨used₂, first.append later (Or.inr first.grows.size)⟩
termination_by structural list => list

end

/-- A walk starts in a single textual scope, from which nothing is seen. -/
theorem lexical_ofFile (file : String) (code : List Char) (content : List Item) :
    ∃ used, Lexical file code 0 .empty (· = 0) (Script.ofFile file code content)
      (Outline.ofFile content) used := by
  have first : Path .empty 0 [0] := .head Nat.zero_lt_one rfl
  have kept : Kept .empty (· = 0) := by
    constructor
    · rintro x rfl
      exact ⟨[0], first, fun y member => List.mem_singleton.mp member⟩
    · intro x y link
      obtain rfl : x = 0 := Nat.lt_one_iff.mp (lt_size_of_next? link)
      cases link
  have stands : Stands .empty (· = 0) 0 (inSight file code [[]]) :=
    ⟨⟨rfl, fun y link => by cases link⟩, [0], first, rfl⟩
  obtain ⟨used, content_walked⟩ := lexical_items file code ⟨ScopeTree.root, .module, 0⟩ ⟨1, 1⟩ [] []
    .empty (· = 0) rfl kept stands content
  have walked : Lexical file code 0 _ used [.report (.walked file)] [] used :=
    .still content_walked.kept rfl rfl fun _ member => by cases member
  have all := content_walked.append walked (Or.inl rfl)
  rw [List.append_nil] at all
  exact ⟨used, all⟩

end

/-! ## Lookups in a walked tree -/

/-- What sees the definitions in sight finds what is visible lexically. -/
theorem Placed.lookup_eq {p : Placed} (sees : t.Sees position (inSight file code p.levels)) :
    t.lookup position = p.visible? file code := by
  funext name
  rw [sees.lookup, find?_inSight]
  rfl

/-- What something placed expands to by the definitions that are visible lexically. -/
def Placed.expansion (p : Placed) (file : String) (code : List Char) : List BoundElement :=
  match p.invocation? file code with
  | none => []
  | some invocation =>
    match (expandOrNone (p.visible? file code) invocation).outcome.1 with
    | .ok (some results) => results
    | _ => []

namespace SourceTree

/-- What is placed without being an invocation expands to nothing. -/
theorem flatMap_expansion_filter (file : String) (code : List Char) (placed : List Placed) :
    (placed.filter fun p => (p.invocation? file code).isSome).flatMap
      (fun p => p.expansion file code) = placed.flatMap fun p => p.expansion file code := by
  induction placed with
  | nil => rfl
  | cons p rest ih =>
    rw [List.filter_cons, List.flatMap_cons, ← ih]
    cases found : p.invocation? file code with
    | none => simp [Placed.expansion, found]
    | some invocation => simp

/-- The invocations of a tree are those of the outline, each with a textual scope that sees what is
visible there. -/
theorem recorded_lexically (file : String) (code : List Char) (content : List Item) :
    List.Forall₂
      (fun r p => p.invocation? file code = some r.invocation ∧
        (ofItems file code content).tree.textual.lookup r.position = p.visible? file code)
      (ofItems file code content).tree.invocations
      ((Outline.ofFile content).filter fun p => (p.invocation? file code).isSome) := by
  obtain ⟨used, walk⟩ := lexical_ofFile file code content
  rw [invocations_ofItems, textual_ofItems, ← fst_moments, List.forall₂_map_left_iff]
  exact walk.recorded.imp fun m p h => ⟨h.invocation, Placed.lookup_eq h.sees⟩

/-- A textual scope that an invocation is recorded with sees at that moment what it sees in the
end. -/
theorem lookup_of_recorded {file : String} {code : List Char} {content : List Item}
    {before after : List TreeStep} {invocation : MacroInvocation} {position : Nat}
    (split : Script.ofFile file code content = before ++ .record invocation position :: after) :
    (TextualScopes.empty.run before).lookup position =
      (ofItems file code content).tree.textual.lookup position := by
  obtain ⟨used, walk⟩ := lexical_ofFile file code content
  have kept : ∀ m ∈ TextualScopes.empty.moments (Script.ofFile file code content),
      m.2.lookup m.1.position = (ofItems file code content).tree.textual.lookup m.1.position := by
    refine ((List.forall₂_and_left _ _).mp (walk.recorded.imp fun m p h => ⟨?_, h⟩)).1
    rw [textual_ofItems, Placed.lookup_eq h.seen, Placed.lookup_eq h.sees]
  have member : (⟨invocation, position⟩, TextualScopes.empty.run before) ∈
      TextualScopes.empty.moments (Script.ofFile file code content) := by
    rw [split, moments_append]
    exact List.mem_append_right _ List.mem_cons_self
  exact kept _ member

/-- From the moment an invocation is recorded on, its textual scope sees what it sees in the end. -/
theorem lookup_at_moment {file : String} {code : List Char} {content : List Item}
    {done left : List TreeStep} (split : Script.ofFile file code content = done ++ left)
    {r : RecordedInvocation} (recorded : r ∈ done.filterMap TreeStep.recorded?) :
    (TextualScopes.empty.run done).lookup r.position =
      (ofItems file code content).tree.textual.lookup r.position := by
  obtain ⟨used, walk⟩ := lexical_ofFile file code content
  have position := List.mem_map_of_mem (f := RecordedInvocation.position) recorded
  have inUse : used r.position := by
    apply walk.inUse_of_recorded
    rw [split, List.filterMap_append, List.map_append]
    exact List.mem_append_left _ position
  obtain ⟨path, back, _⟩ := walk.kept.path r.position inUse
  have last : (TextualScopes.empty.run (Script.ofFile file code content)).Sees r.position _ :=
    ⟨path, back, rfl⟩
  have afterwards := walk.steady done left split r.position (Or.inr position) _ last
  funext name
  rw [textual_ofItems, afterwards.lookup, last.lookup]

/-- The results of a tree are what the invocations of the outline expand to. -/
theorem expansionResults_ofItems (file : String) (code : List Char) (content : List Item) :
    (ofItems file code content).tree.expansionResults =
      (Outline.ofFile content).flatMap fun p => p.expansion file code := by
  rw [← flatMap_expansion_filter, ← List.forall₂_eq_eq_eq]
  refine List.rel_flatMap (recorded_lexically file code content) fun r p h => ?_
  rw [List.forall₂_eq_eq_eq, Placed.expansion, h.1, ← h.2]
  rfl

/-- In a walked tree, every invocation sees what is visible lexically where it stands: the last
definition of a name that stands before it in its list, else the last one before the module,
function or implementation that holds this list, and so on. It saw the same when the walk recorded
it, and it is expanded by what it sees. -/
theorem invocations_see_lexically (file : String) (code : List Char) (content : List Item) :
    let start : TracedTree := ⟨empty file, [.parsing file]⟩
    let steps := Script.ofFile file code content
    let walked := (ofItems file code content).tree
    List.Forall₂
      (fun r p => p.invocation? file code = some r.invocation ∧
        ∀ name, walked.textual.lookup r.position name = p.visible? file code name)
      walked.invocations
      ((Outline.ofFile content).filter fun p => (p.invocation? file code).isSome) ∧
    ofItems file code content = start.run steps ∧
    (∀ before invocation position after,
      steps = before ++ .record invocation position :: after →
      ∀ name, (start.run before).tree.textual.lookup position name =
        walked.textual.lookup position name) ∧
    ∀ made, walked.expandAll = .ok made →
      made.tree.textual = walked.textual ∧ made.tree.invocations = walked.invocations ∧
      made.tree.results = (Outline.ofFile content).flatMap fun p => p.expansion file code := by
  intro start steps walked
  refine ⟨?_, ofItems_eq_run file code content, ?_, ?_⟩
  · exact (recorded_lexically file code content).imp fun r p h => ⟨h.1, fun name => by rw [h.2]⟩
  · intro before invocation position after split name
    rw [TracedTree.textual_run]
    exact congrFun (lookup_of_recorded split) name
  · intro made expansion
    rw [expandAll_of_fresh (expansions_ofItems file code content)] at expansion
    split at expansion
    · cases expansion
    · cases expansion
      exact ⟨textual_expanded walked, invocations_expanded walked,
        expansionResults_ofItems file code content⟩

/-- A call after the definition that it sees. -/
theorem invocations_see_lexically_called :
    let rule := "macro_rules!m{()=>{}}".toList
    let code := rule ++ "m!()".toList
    let there := Position.origin.after rule
    let extent : Extent := ⟨there, Position.origin.after code⟩
    let definition : Item := .ruleSet ⟨[], ⟨.origin, there⟩, false⟩ "m"
    let call : Item :=
      .invocation ⟨[], extent, false⟩ ⟨⟨false, ["m"]⟩, .paren, [], extent, extent⟩
    let walked := (ofItems "a.rs" code [definition, call]).tree
    ∃ before invocation position after made,
      Script.ofFile "a.rs" code [definition, call] =
        before ++ .record invocation position :: after ∧
      walked.expandAll = .ok made ∧ made.tree.textual = walked.textual ∧
      ∀ name, (TracedTree.run ⟨empty "a.rs", [.parsing "a.rs"]⟩ before).tree.textual.lookup position
        name = walked.textual.lookup position name := by
  intro rule code there extent definition call walked
  obtain ⟨_, _, moment, expanded⟩ := invocations_see_lexically "a.rs" code [definition, call]
  have recorded : (Script.ofFile "a.rs" code [definition, call]).any
      (fun s => s.recorded?.isSome) = true := by decide +kernel
  have finished : walked.expansionAborts = false := by decide +kernel
  have expansion : walked.expandAll = .ok walked.expanded := by
    rw [expandAll_of_fresh (expansions_ofItems "a.rs" code _), finished]
    rfl
  obtain ⟨s, member, records⟩ := List.any_eq_true.mp recorded
  cases s with
  | record invocation position =>
    obtain ⟨before, after, split⟩ := List.append_of_mem member
    exact ⟨before, invocation, position, after, _, split, expansion, (expanded _ expansion).1,
      moment before invocation position after split⟩
  | report _ | declare _ _ | addScope _ _ | append _ _ | submodule _ | register _ _ => cases records

end SourceTree

end MacroExpansion
