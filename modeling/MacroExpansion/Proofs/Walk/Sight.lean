import MacroExpansion.Proofs.Walk.Visibility

/-!
# What invocations see

An outline is told by its invocations with what is visible to them. It is told alike behind any
lists that have the same definitions in sight. The invocations of a walked tree, each with what it
finds, are those of the outline.
-/
namespace MacroExpansion

variable {file : String} {code : List Char}

/-- The invocation that is placed, with what is visible there. -/
def Placed.told? (p : Placed) (file : String) (code : List Char) :
    Option (MacroInvocation × (Ident → Option MacroDefinition)) :=
  (p.invocation? file code).map fun invocation => (invocation, p.visible? file code)

/-- The same invocations are placed, and see the same. -/
def Outline.Alike (file : String) (code : List Char) (ps qs : List Placed) : Prop :=
  ps.filterMap (fun p => p.told? file code) = qs.filterMap fun p => p.told? file code

namespace Outline.Alike

variable {ps qs us vs : List Placed}

theorem append (first : Outline.Alike file code ps qs) (later : Outline.Alike file code us vs) :
    Outline.Alike file code (ps ++ us) (qs ++ vs) := by
  unfold Alike at *
  rw [List.filterMap_append, List.filterMap_append, first, later]

theorem cons {p q : Placed} (first : p.told? file code = q.told? file code)
    (later : Outline.Alike file code ps qs) : Outline.Alike file code (p :: ps) (q :: qs) := by
  unfold Alike at *
  rw [List.filterMap_cons, List.filterMap_cons, first, later]

end Outline.Alike

/-- What is visible hangs on the definitions in sight. -/
theorem Placed.told?_of_inSight (scope : ScopeId) (kind : ScopeKind) (content : Statement)
    {levels levels' : List (List Statement)}
    (same : inSight file code levels = inSight file code levels') :
    told? ⟨scope, kind, levels, content⟩ file code =
      told? ⟨scope, kind, levels', content⟩ file code := by
  have visible : visible? ⟨scope, kind, levels, content⟩ file code =
      visible? ⟨scope, kind, levels', content⟩ file code := by
    funext name
    rw [visible?, visible?, ← find?_inSight, ← find?_inSight, same]
  unfold told?
  rw [visible]
  rfl

mutual

/-- What is visible in an item hangs on the definitions in sight of it. -/
theorem alike_item (scope : ScopeId) (kind : ScopeKind) (next : Nat)
    (levels levels' : List (List Statement))
    (same : inSight file code levels = inSight file code levels') : ∀ i : Item,
    Outline.Alike file code (Outline.item scope kind next levels i)
      (Outline.item scope kind next levels' i)
  | .module head spelling members => by
    rw [Outline.item, Outline.item]
    apply Outline.Alike.cons (Placed.told?_of_inSight _ _ _ same)
    exact alike_items _ _ _ [] [] levels levels' same members
  | .function head spelling body => by
    rw [Outline.item, Outline.item]
    apply Outline.Alike.cons (Placed.told?_of_inSight _ _ _ same)
    exact alike_statements _ _ _ [] [] levels levels' same body
  | .implementation head functions => by
    rw [Outline.item, Outline.item]
    apply Outline.Alike.cons (Placed.told?_of_inSight _ _ _ same)
    exact alike_bodies _ levels levels' same _ functions
  | .ruleSet _ _ | .invocation _ _ | .moduleElsewhere _ _ | .leaf _ _ _ | .raw _ => by
    simp only [Outline.item]
    exact Outline.Alike.cons (Placed.told?_of_inSight _ _ _ same) rfl
termination_by structural i => i

theorem alike_items (scope : ScopeId) (kind : ScopeKind) (next : Nat)
    (before before' : List Statement) (outer outer' : List (List Statement))
    (same : inSight file code (before :: outer) = inSight file code (before' :: outer')) :
    ∀ list : List Item,
    Outline.Alike file code (Outline.items scope kind next before outer list)
      (Outline.items scope kind next before' outer' list)
  | [] => by
    rw [Outline.items, Outline.items]
    rfl
  | i :: rest => by
    rw [Outline.items, Outline.items]
    apply Outline.Alike.append
    · exact alike_item scope kind next _ _ same i
    · apply alike_items
      rw [inSight_snoc, inSight_snoc, same]
termination_by structural list => list

theorem alike_statement (scope : ScopeId) (kind : ScopeKind) (next : Nat)
    (levels levels' : List (List Statement))
    (same : inSight file code levels = inSight file code levels') : ∀ s : Statement,
    Outline.Alike file code (Outline.statement scope kind next levels s)
      (Outline.statement scope kind next levels' s)
  | .item i => by
    rw [Outline.statement, Outline.statement]
    exact alike_item scope kind next levels levels' same i
  | .invocation extent place call => by
    rw [Outline.statement, Outline.statement]
    exact Outline.Alike.cons (Placed.told?_of_inSight _ _ _ same) rfl
termination_by structural s => s

theorem alike_statements (scope : ScopeId) (kind : ScopeKind) (next : Nat)
    (before before' : List Statement) (outer outer' : List (List Statement))
    (same : inSight file code (before :: outer) = inSight file code (before' :: outer')) :
    ∀ list : List Statement,
    Outline.Alike file code (Outline.statements scope kind next before outer list)
      (Outline.statements scope kind next before' outer' list)
  | [] => by
    rw [Outline.statements, Outline.statements]
    rfl
  | s :: rest => by
    rw [Outline.statements, Outline.statements]
    apply Outline.Alike.append
    · exact alike_statement scope kind next _ _ same s
    · apply alike_statements
      rw [inSight_snoc, inSight_snoc, same]
termination_by structural list => list

theorem alike_bodies (next : Nat) (outer outer' : List (List Statement))
    (same : inSight file code outer = inSight file code outer') (scope : ScopeId) :
    ∀ list : List (List Statement),
    Outline.Alike file code (Outline.bodies next outer scope list)
      (Outline.bodies next outer' scope list)
  | [] => by
    rw [Outline.bodies, Outline.bodies]
    rfl
  | body :: rest => by
    rw [Outline.bodies, Outline.bodies]
    apply Outline.Alike.append
    · exact alike_statements _ _ _ [] [] outer outer' same body
    · exact alike_bodies _ outer outer' same scope rest
termination_by structural list => list

end

theorem Outline.items_eq_statements (scope : ScopeId) (kind : ScopeKind) (next : Nat)
    (before : List Statement) (outer : List (List Statement)) (list : List Item) :
    items scope kind next before outer list =
      statements scope kind next before outer (list.map .item) := by
  induction list generalizing next before with
  | nil => rw [items, List.map_nil, statements]
  | cons i rest ih => rw [items, List.map_cons, statements, statement, Regions.statement, ih]

theorem map_eq_filterMap {α β γ : Type} {f : α → γ} {g : β → Option γ} {xs : List α}
    {ys : List β} (h : List.Forall₂ (fun x y => g y = some (f x)) xs ys) :
    xs.map f = ys.filterMap g := by
  induction h with
  | nil => rfl
  | cons first _ ih => rw [List.map_cons, List.filterMap_cons, first, ih]

namespace SourceTree

/-- The invocations of a tree with what they see are those of the outline. -/
theorem invocations_told (file : String) (code : List Char) (content : List Item) :
    let walked := (ofItems file code content).tree
    walked.invocations.map (fun r => (r.invocation, walked.textual.lookup r.position)) =
      (Outline.ofFile content).filterMap fun p => p.told? file code := by
  intro walked
  have recorded := (recorded_lexically file code content).imp fun r p h =>
    show p.told? file code = some (r.invocation, walked.textual.lookup r.position) by
      rw [Placed.told?, h.1, h.2]
      rfl
  rw [map_eq_filterMap recorded, List.filterMap_filter]
  congr 1
  funext p
  unfold Placed.told?
  cases p.invocation? file code <;> rfl

end SourceTree

end MacroExpansion
