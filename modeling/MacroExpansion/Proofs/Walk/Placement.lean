import MacroExpansion.Proofs.Walk.Outline

/-!
# What is placed and the members of regions

The region that an outline names for something placed is one of the file's regions, of the kind that
the outline tells, and has it among its own members: so it is the innermost one. Invocations among
statements are in bodies. And whatever is a member of a region is placed there.
-/
namespace MacroExpansion

/-- A region holds something placed, as what it is placed as. -/
structure Region.Holds (region : Region) (p : Placed) : Prop where
  kind : region.kind = p.kind
  member : p.content ∈ region.members
  body : ∀ extent position call, p.content = .invocation extent position call →
    region.kind = .block

/-- One of some regions, numbered from `next` on, holds something placed. -/
def Regions.Hold (next : Nat) (regions : List Region) (p : Placed) : Prop :=
  ∃ k region, p.scope.index = next + k ∧ regions[k]? = some region ∧ region.Holds p

namespace Regions.Hold

variable {next : Nat} {regions others : List Region} {p : Placed}

theorem left (h : Hold next regions p) : Hold next (regions ++ others) p := by
  obtain ⟨k, region, number, found, holds⟩ := h
  have inside : k < regions.length := (List.getElem?_eq_some_iff.mp found).1
  exact ⟨k, region, number, by rw [List.getElem?_append_left inside, found], holds⟩

theorem right (h : Hold (next + regions.length) others p) : Hold next (regions ++ others) p := by
  obtain ⟨k, region, number, found, holds⟩ := h
  refine ⟨regions.length + k, region, by omega, ?_, holds⟩
  rw [List.getElem?_append_right (Nat.le_add_right _ _), Nat.add_sub_cancel_left, found]

end Regions.Hold

open Regions (Hold)

/-- It is a member of the region that is gone through, or of one of those within it. -/
def Placed.Within (p : Placed) (region : Region) (scope : ScopeId) (next : Nat)
    (regions : List Region) : Prop :=
  (p.scope = scope ∧ region.Holds p) ∨ Hold next regions p

/-- What is within a region is held by it or by one of those that follow it. -/
theorem Placed.Within.hold {p : Placed} {region : Region} {next : Nat} {regions : List Region}
    (h : p.Within region ⟨next⟩ (next + 1) regions) : Hold next (region :: regions) p := by
  rcases h with ⟨here, holds⟩ | inner
  · exact ⟨0, region, by rw [here]; rfl, rfl, holds⟩
  · have behind : Hold (next + [region].length) regions p := inner
    exact behind.right

/-- An item that is a member of the region that is gone through. -/
theorem Placed.Within.own {region : Region} {scope : ScopeId} {next : Nat} {regions : List Region}
    {levels : List (List Statement)} {i : Item} (member : .item i ∈ region.members) :
    (Placed.mk scope region.kind levels (.item i)).Within region scope next regions :=
  Or.inl ⟨rfl, rfl, member, fun _ _ _ other => by cases other⟩

mutual

theorem within_item (region : Region) (scope : ScopeId) (next : Nat)
    (levels : List (List Statement)) : ∀ i : Item, .item i ∈ region.members →
    ∀ p ∈ Outline.item scope region.kind next levels i,
      p.Within region scope next (Regions.item scope next i)
  | .module head spelling members, own => by
    intro p member
    rw [Outline.item] at member
    rw [Regions.item]
    rcases List.mem_cons.mp member with rfl | inner
    · exact .own own
    · have within := within_items ⟨.module, some scope, members.map .item⟩ ⟨next⟩ (next + 1) []
        levels members (fun i member => List.mem_map_of_mem member) p inner
      exact Or.inr within.hold
  | .function head spelling body, own => by
    intro p member
    rw [Outline.item] at member
    rw [Regions.item]
    rcases List.mem_cons.mp member with rfl | inner
    · exact .own own
    · have within := within_statements ⟨.block, some scope, body⟩ rfl ⟨next⟩ (next + 1) [] levels
        body (fun s member => member) p inner
      exact Or.inr within.hold
  | .implementation head functions, own => by
    intro p member
    rw [Outline.item] at member
    rw [Regions.item]
    rcases List.mem_cons.mp member with rfl | inner
    · exact .own own
    · exact Or.inr (held_bodies next levels scope functions p inner)
  | .ruleSet _ _, own | .invocation _ _, own | .moduleElsewhere _ _, own | .leaf _ _ _, own
  | .raw _, own => by
    intro p member
    simp only [Outline.item] at member
    rw [List.mem_singleton.mp member]
    exact .own own
termination_by structural i => i

theorem within_items (region : Region) (scope : ScopeId) (next : Nat) (before : List Statement)
    (outer : List (List Statement)) : ∀ list : List Item, (∀ i ∈ list, .item i ∈ region.members) →
    ∀ p ∈ Outline.items scope region.kind next before outer list,
      p.Within region scope next (Regions.items scope next list)
  | [], _ => by
    intro p member
    rw [Outline.items] at member
    cases member
  | i :: rest, own => by
    intro p member
    rw [Outline.items] at member
    rw [Regions.items]
    rcases List.mem_append.mp member with first | later
    · exact (within_item region scope next _ i (own i List.mem_cons_self) p first).imp id Hold.left
    · exact (within_items region scope _ _ outer rest
        (fun i member => own i (List.mem_cons_of_mem _ member)) p later).imp id Hold.right
termination_by structural list => list

theorem within_statement (region : Region) (body : region.kind = .block) (scope : ScopeId)
    (next : Nat) (levels : List (List Statement)) : ∀ s : Statement, s ∈ region.members →
    ∀ p ∈ Outline.statement scope region.kind next levels s,
      p.Within region scope next (Regions.statement scope next s)
  | .item i, own => by
    intro p member
    rw [Outline.statement] at member
    rw [Regions.statement]
    exact within_item region scope next levels i own p member
  | .invocation extent place call, own => by
    intro p member
    rw [Outline.statement] at member
    rw [List.mem_singleton.mp member]
    exact Or.inl ⟨rfl, rfl, own, fun _ _ _ _ => body⟩
termination_by structural s => s

theorem within_statements (region : Region) (body : region.kind = .block) (scope : ScopeId)
    (next : Nat) (before : List Statement) (outer : List (List Statement)) :
    ∀ list : List Statement, (∀ s ∈ list, s ∈ region.members) →
    ∀ p ∈ Outline.statements scope region.kind next before outer list,
      p.Within region scope next (Regions.statements scope next list)
  | [], _ => by
    intro p member
    rw [Outline.statements] at member
    cases member
  | s :: rest, own => by
    intro p member
    rw [Outline.statements] at member
    rw [Regions.statements]
    rcases List.mem_append.mp member with first | later
    · exact (within_statement region body scope next _ s (own s List.mem_cons_self) p first).imp id
        Hold.left
    · exact (within_statements region body scope _ _ outer rest
        (fun s member => own s (List.mem_cons_of_mem _ member)) p later).imp id Hold.right
termination_by structural list => list

theorem held_bodies (next : Nat) (outer : List (List Statement)) (scope : ScopeId) :
    ∀ list : List (List Statement), ∀ p ∈ Outline.bodies next outer scope list,
      Hold next (Regions.bodies scope next list) p
  | [] => by
    intro p member
    rw [Outline.bodies] at member
    cases member
  | body :: rest => by
    intro p member
    rw [Outline.bodies] at member
    rw [Regions.bodies]
    rcases List.mem_append.mp member with first | later
    · exact Hold.left (within_statements ⟨.block, some scope, body⟩ rfl ⟨next⟩ (next + 1) [] outer
        body (fun s member => member) p first).hold
    · have behind := held_bodies _ outer scope rest p later
      have number : next + 1 + (Regions.statements ⟨next⟩ (next + 1) body).length =
          next + (Region.mk .block (some scope) body ::
            Regions.statements ⟨next⟩ (next + 1) body).length := by
        rw [List.length_cons]
        omega
      rw [number] at behind ⊢
      exact Hold.right behind
termination_by structural list => list

end

/-- Whatever is placed in a file is a member of the region that its scope is the number of. -/
theorem placed_in_region {content : List Item} {p : Placed} (member : p ∈ Outline.ofFile content) :
    ∃ region, (Regions.ofFile content)[p.scope.index]? = some region ∧ region.Holds p := by
  have within : p.Within ⟨.module, none, content.map .item⟩ ScopeTree.root 1
      (Regions.items ScopeTree.root 1 content) :=
    within_items ⟨.module, none, content.map .item⟩ ScopeTree.root 1 [] [] content
      (fun i member => List.mem_map_of_mem member) p member
  obtain ⟨k, region, number, found, holds⟩ := within.hold
  rw [Nat.zero_add] at number
  exact ⟨region, by rw [number]; exact found, holds⟩

/-! ## Members are placed -/

/-- A statement is placed in a region. -/
def PlacedIn (placed : List Placed) (scope : ScopeId) (kind : ScopeKind) (s : Statement) : Prop :=
  ∃ p ∈ placed, p.scope = scope ∧ p.kind = kind ∧ p.content = s

/-- What is gone through of a region, and the members of the regions within it, are placed there.
These regions are numbered from `next` on. -/
structure Places (scope : ScopeId) (kind : ScopeKind) (next : Nat) (own : List Statement)
    (regions : List Region) (placed : List Placed) : Prop where
  own : ∀ s ∈ own, PlacedIn placed scope kind s
  inner : ∀ (n : Nat) (region : Region), regions[n]? = some region → ∀ s ∈ region.members,
    PlacedIn placed ⟨next + n⟩ region.kind s

theorem PlacedIn.mono {placed more : List Placed} {scope : ScopeId} {kind : ScopeKind}
    {s : Statement} (h : PlacedIn placed scope kind s) (sub : placed ⊆ more) :
    PlacedIn more scope kind s := by
  obtain ⟨p, member, there⟩ := h
  exact ⟨p, sub member, there⟩

namespace Places

variable {scope : ScopeId} {kind : ScopeKind} {next : Nat} {own later : List Statement}
  {regions others : List Region} {placed rest : List Placed}

theorem nil : Places scope kind next [] [] [] := ⟨by simp, by simp⟩

theorem append (h : Places scope kind next own regions placed)
    (k : Places scope kind (next + regions.length) later others rest) :
    Places scope kind next (own ++ later) (regions ++ others) (placed ++ rest) where
  own := by
    intro s member
    rcases List.mem_append.mp member with first | second
    · exact (h.own s first).mono (List.subset_append_left _ _)
    · exact (k.own s second).mono (List.subset_append_right _ _)
  inner := by
    intro n region found s member
    rcases Nat.lt_or_ge n regions.length with early | late
    · rw [List.getElem?_append_left early] at found
      exact (h.inner n region found s member).mono (List.subset_append_left _ _)
    · rw [List.getElem?_append_right late] at found
      have number : next + regions.length + (n - regions.length) = next + n := by omega
      exact number ▸ (k.inner _ region found s member).mono (List.subset_append_right _ _)

/-- A region is gone through for its own members. -/
theorem within {inner : ScopeKind} {parent : Option ScopeId} {body : List Statement}
    (h : Places ⟨next⟩ inner (next + 1) body regions placed) :
    Places scope kind next [] (⟨inner, parent, body⟩ :: regions) placed where
  own := by simp
  inner := by
    intro n region found s member
    cases n with
    | zero =>
      cases found
      exact h.own s member
    | succ n =>
      have number : next + 1 + n = next + (n + 1) := by omega
      exact number ▸ h.inner n region found s member

/-- Something placed ahead of what is in it. -/
theorem cons {levels : List (List Statement)} {s : Statement}
    (h : Places scope kind next [] regions placed) :
    Places scope kind next [s] regions (⟨scope, kind, levels, s⟩ :: placed) where
  own := by
    intro t member
    rw [List.mem_singleton.mp member]
    exact ⟨_, List.mem_cons_self, rfl, rfl, rfl⟩
  inner n region found t member :=
    (h.inner n region found t member).mono (List.subset_cons_self _ _)

end Places

mutual

theorem places_item (scope : ScopeId) (kind : ScopeKind) (next : Nat)
    (levels : List (List Statement)) : ∀ i : Item,
    Places scope kind next [.item i] (Regions.item scope next i)
      (Outline.item scope kind next levels i)
  | .module head spelling members => by
    rw [Regions.item, Outline.item]
    exact (places_items ⟨next⟩ .module (next + 1) [] levels members).within.cons
  | .function head spelling body => by
    rw [Regions.item, Outline.item]
    exact (places_statements ⟨next⟩ .block (next + 1) [] levels body).within.cons
  | .implementation head functions => by
    rw [Regions.item, Outline.item]
    exact (places_bodies scope kind next levels functions).cons
  | .ruleSet _ _ | .invocation _ _ | .moduleElsewhere _ _ | .leaf _ _ _ | .raw _ => by
    simp only [Regions.item, Outline.item]
    exact Places.nil.cons
termination_by structural i => i

theorem places_items (scope : ScopeId) (kind : ScopeKind) (next : Nat) (before : List Statement)
    (outer : List (List Statement)) : ∀ list : List Item,
    Places scope kind next (list.map .item) (Regions.items scope next list)
      (Outline.items scope kind next before outer list)
  | [] => by
    rw [Regions.items, Outline.items]
    exact .nil
  | i :: rest => by
    rw [Regions.items, Outline.items]
    exact (places_item scope kind next (before :: outer) i).append
      (places_items scope kind _ _ outer rest)
termination_by structural list => list

theorem places_statement (scope : ScopeId) (kind : ScopeKind) (next : Nat)
    (levels : List (List Statement)) : ∀ s : Statement,
    Places scope kind next [s] (Regions.statement scope next s)
      (Outline.statement scope kind next levels s)
  | .item i => by
    rw [Regions.statement, Outline.statement]
    exact places_item scope kind next levels i
  | .invocation _ _ _ => by
    rw [Regions.statement, Outline.statement]
    exact Places.nil.cons
termination_by structural s => s

theorem places_statements (scope : ScopeId) (kind : ScopeKind) (next : Nat)
    (before : List Statement) (outer : List (List Statement)) : ∀ list : List Statement,
    Places scope kind next list (Regions.statements scope next list)
      (Outline.statements scope kind next before outer list)
  | [] => by
    rw [Regions.statements, Outline.statements]
    exact .nil
  | s :: rest => by
    rw [Regions.statements, Outline.statements]
    exact (places_statement scope kind next (before :: outer) s).append
      (places_statements scope kind _ _ outer rest)
termination_by structural list => list

theorem places_bodies (scope : ScopeId) (kind : ScopeKind) (next : Nat)
    (outer : List (List Statement)) : ∀ list : List (List Statement),
    Places scope kind next [] (Regions.bodies scope next list)
      (Outline.bodies next outer scope list)
  | [] => by
    rw [Regions.bodies, Outline.bodies]
    exact .nil
  | body :: rest => by
    have first : Places scope kind next [] (⟨.block, some scope, body⟩ :: _) _ :=
      (places_statements ⟨next⟩ .block (next + 1) [] outer body).within
    have later := places_bodies scope kind
      (next + 1 + (Regions.statements ⟨next⟩ (next + 1) body).length) outer rest
    have number : next + 1 + (Regions.statements ⟨next⟩ (next + 1) body).length =
        next + (Region.mk .block (some scope) body ::
          Regions.statements ⟨next⟩ (next + 1) body).length := by
      rw [List.length_cons]
      omega
    rw [Regions.bodies, Outline.bodies]
    rw [number] at later ⊢
    exact first.append later
termination_by structural list => list

end

/-- Whatever is a member of a region of a file is placed there. -/
theorem member_placed {content : List Item} {n : Nat} {region : Region}
    (found : (Regions.ofFile content)[n]? = some region) {s : Statement}
    (member : s ∈ region.members) : PlacedIn (Outline.ofFile content) ⟨n⟩ region.kind s := by
  have all : Places ScopeTree.root .module 0 [] (Regions.ofFile content)
      (Outline.ofFile content) :=
    (places_items ScopeTree.root .module 1 [] [] content).within
  have placed := all.inner n region found s member
  rwa [Nat.zero_add] at placed

end MacroExpansion
