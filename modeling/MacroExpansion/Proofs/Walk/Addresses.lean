import MacroExpansion.Proofs.Walk.Outline

/-!
# Regions by their addresses

From the root of a file its regions are reached step by step: each step goes into a module, a
function or one of the functions of an implementation that stands directly in the region so far.
Main statement: the regions of a file are listed one for each address that there is, and the parent
of a region is the one that it is reached from.
-/
namespace MacroExpansion

/-- A statement opens a region: a module its content, a function its body, and an implementation
the body of each of its functions. -/
inductive Statement.Opens : Statement → Nat → ScopeKind → List Statement → Prop
  | module (head : ItemHead) (spelling : String) (members : List Item) :
    Opens (.item (.module head spelling members)) 0 .module (members.map .item)
  | function (head : ItemHead) (spelling : String) (body : List Statement) :
    Opens (.item (.function head spelling body)) 0 .block body
  | method {head : ItemHead} {functions : List (List Statement)} {number : Nat}
    {body : List Statement} (found : functions[number]? = some body) :
    Opens (.item (.implementation head functions)) number .block body

/-- A step inwards: the number of the statement that opens the region, and which of those that it
opens is meant. -/
abbrev Step := Nat × Nat

/-- One of some statements opens a region at a step. -/
def OpensAt (members : List Statement) (step : Step) (kind : ScopeKind) (body : List Statement) :
    Prop :=
  ∃ s, members[step.1]? = some s ∧ s.Opens step.2 kind body

/-- The region that some steps lead to from one of some kind. -/
inductive Reaches : ScopeKind → List Statement → List Step → ScopeKind → List Statement → Prop
  | here (kind : ScopeKind) (members : List Statement) : Reaches kind members [] kind members
  | inner {outer kind inner : ScopeKind} {members body content : List Statement} {step : Step}
    {rest : List Step} (opens : OpensAt members step inner body)
    (deeper : Reaches inner body rest kind content) :
    Reaches outer members (step :: rest) kind content

theorem Statement.Opens.unique {s : Statement} {number : Nat} {kind other : ScopeKind}
    {body content : List Statement} (h : s.Opens number kind body)
    (k : s.Opens number other content) : other = kind ∧ content = body := by
  cases h with
  | module | function =>
    cases k
    exact ⟨rfl, rfl⟩
  | method found =>
    cases k with
    | method found' =>
      rw [found] at found'
      cases found'
      exact ⟨rfl, rfl⟩

/-- What a statement opens as one of some members. -/
theorem OpensAt.opens {members : List Statement} {step : Step} {kind : ScopeKind}
    {body : List Statement} {s : Statement} (h : OpensAt members step kind body)
    (own : members[step.1]? = some s) : s.Opens step.2 kind body := by
  obtain ⟨t, found, opens⟩ := h
  rw [own] at found
  cases found
  exact opens

/-- The parent of the region at an address is the one that it is reached from, `scope` if it is
reached by one step. -/
def ParentAt (scope : ScopeId) (next : Nat) (addresses : List (List Step)) (address : List Step)
    (parent : Option ScopeId) : Prop :=
  ∃ outer step, address = outer ++ [step] ∧
    ((outer = [] ∧ parent = some scope) ∨
      ∃ n, addresses[n]? = some outer ∧ parent = some ⟨next + n⟩)

/-- These are the addresses of some regions, which are those reached from a region of kind `outer`
by way of the steps that are meant. The number of that region is `scope`, theirs start with
`next`. -/
structure Sited (outer : ScopeKind) (members : List Statement) (meant : Step → Prop)
    (scope : ScopeId) (next : Nat) (addresses : List (List Step)) (regions : List Region) :
    Prop where
  length : addresses.length = regions.length
  apart : addresses.Nodup
  complete : ∀ step rest kind body, meant step →
    Reaches outer members (step :: rest) kind body → step :: rest ∈ addresses
  begins : ∀ address ∈ addresses, ∃ step rest, address = step :: rest ∧ meant step
  reached : ∀ (n : Nat) (address : List Step) (region : Region),
    addresses[n]? = some address → regions[n]? = some region →
    Reaches outer members address region.kind region.members ∧
    ParentAt scope next addresses address region.parent

namespace Sited

variable {outer : ScopeKind} {members : List Statement} {meant other : Step → Prop}
  {scope : ScopeId} {next : Nat} {addresses more : List (List Step)}
  {regions others : List Region}

/-- Only steps that open a region matter. -/
theorem of_steps (h : Sited outer members meant scope next addresses regions)
    (same : ∀ step kind body, OpensAt members step kind body → (other step ↔ meant step)) :
    Sited outer members other scope next addresses regions where
  length := h.length
  apart := h.apart
  complete := by
    intro step rest kind body among reaches
    cases reaches with
    | inner opens deeper =>
      exact h.complete step rest kind body ((same step _ _ opens).mp among) (.inner opens deeper)
  begins := by
    intro address member
    obtain ⟨n, found⟩ := List.getElem?_of_mem member
    obtain ⟨step, rest, rfl, among⟩ := h.begins address member
    have inside : n < regions.length := h.length ▸ (List.getElem?_eq_some_iff.mp found).1
    obtain ⟨reaches, -⟩ := h.reached n _ _ found (List.getElem?_eq_getElem inside)
    cases reaches with
    | inner opens _ => exact ⟨step, rest, rfl, (same step _ _ opens).mpr among⟩
  reached := h.reached

/-- Nothing is opened. -/
theorem none (nothing : ∀ step kind body, meant step → ¬ OpensAt members step kind body) :
    Sited outer members meant scope next [] [] where
  length := rfl
  apart := .nil
  complete := by
    intro step rest kind body among reaches
    cases reaches with
    | inner opens _ => exact absurd opens (nothing step _ _ among)
  begins := by simp
  reached := by simp

theorem append (h : Sited outer members meant scope next addresses regions)
    (k : Sited outer members other scope (next + regions.length) more others)
    (disjoint : ∀ step, meant step → ¬ other step) :
    Sited outer members (fun step => meant step ∨ other step) scope next (addresses ++ more)
      (regions ++ others) where
  length := by rw [List.length_append, List.length_append, h.length, k.length]
  apart := by
    refine List.nodup_append.mpr ⟨h.apart, k.apart, fun address left _ right same => ?_⟩
    obtain ⟨step, rest, rfl, here⟩ := h.begins address left
    obtain ⟨_, _, rfl, there⟩ := k.begins _ right
    cases same
    exact disjoint step here there
  complete := by
    rintro step rest kind body (left | right) reaches
    · exact List.mem_append_left _ (h.complete step rest kind body left reaches)
    · exact List.mem_append_right _ (k.complete step rest kind body right reaches)
  begins := by
    intro address member
    rcases List.mem_append.mp member with left | right
    · obtain ⟨step, rest, same, among⟩ := h.begins address left
      exact ⟨step, rest, same, Or.inl among⟩
    · obtain ⟨step, rest, same, among⟩ := k.begins address right
      exact ⟨step, rest, same, Or.inr among⟩
  reached := by
    intro n address region found made
    rcases Nat.lt_or_ge n addresses.length with early | late
    · rw [List.getElem?_append_left early] at found
      rw [List.getElem?_append_left (h.length ▸ early)] at made
      obtain ⟨reaches, stem, step, same, parent⟩ := h.reached n address region found made
      refine ⟨reaches, stem, step, same, parent.imp_right fun deeper => ?_⟩
      obtain ⟨m, found, parent⟩ := deeper
      refine ⟨m, ?_, parent⟩
      rw [List.getElem?_append_left (List.getElem?_eq_some_iff.mp found).1, found]
    · rw [List.getElem?_append_right late] at found
      rw [List.getElem?_append_right (h.length ▸ late), ← h.length] at made
      obtain ⟨reaches, stem, step, same, parent⟩ := k.reached _ address region found made
      refine ⟨reaches, stem, step, same, parent.imp_right fun deeper => ?_⟩
      obtain ⟨m, found, parent⟩ := deeper
      refine ⟨addresses.length + m, ?_, ?_⟩
      · rw [List.getElem?_append_right (Nat.le_add_right _ _), Nat.add_sub_cancel_left, found]
      · rw [parent, h.length, Nat.add_assoc]

/-- A region and those within it. -/
theorem within {step : Step} {s : Statement} {kind : ScopeKind} {body : List Statement}
    (own : members[step.1]? = some s) (opens : s.Opens step.2 kind body)
    (h : Sited kind body (fun s => 0 ≤ s.1) ⟨next⟩ (next + 1) addresses regions) :
    Sited outer members (fun s => s = step) scope next ([step] :: addresses.map (step :: ·))
      (⟨kind, some scope, body⟩ :: regions) where
  length := by rw [List.length_cons, List.length_map, List.length_cons, h.length]
  apart := by
    have inner : (addresses.map (step :: ·)).Nodup :=
      List.pairwise_map.mpr (h.apart.imp fun different same => different (List.cons.inj same).2)
    refine List.nodup_cons.mpr ⟨fun member => ?_, inner⟩
    obtain ⟨address, member, same⟩ := List.mem_map.mp member
    obtain ⟨_, _, rfl, -⟩ := h.begins address member
    cases same
  complete := by
    rintro _ rest found content rfl reaches
    cases reaches with
    | inner opens' deeper =>
      obtain ⟨rfl, rfl⟩ := opens.unique (opens'.opens own)
      cases rest with
      | nil => exact List.mem_cons_self
      | cons s rest =>
        have member := h.complete s rest found content (Nat.zero_le _) deeper
        exact List.mem_cons_of_mem _ (List.mem_map_of_mem member)
  begins := by
    intro address member
    rcases List.mem_cons.mp member with rfl | member
    · exact ⟨step, [], rfl, rfl⟩
    · obtain ⟨rest, -, rfl⟩ := List.mem_map.mp member
      exact ⟨step, rest, rfl, rfl⟩
  reached := by
    intro n address region found made
    cases n with
    | zero =>
      cases found
      cases made
      exact ⟨.inner ⟨s, own, opens⟩ (.here kind body), [], step, rfl, Or.inl ⟨rfl, rfl⟩⟩
    | succ n =>
      rw [List.getElem?_cons_succ, List.getElem?_map] at found
      obtain ⟨rest, stands, rfl⟩ := Option.map_eq_some_iff.mp found
      obtain ⟨reaches, stem, last, rfl, parent⟩ := h.reached n rest region stands made
      refine ⟨.inner ⟨s, own, opens⟩ reaches, step :: stem, last, rfl, Or.inr ?_⟩
      rcases parent with ⟨rfl, parent⟩ | ⟨m, found, parent⟩
      · exact ⟨0, rfl, parent⟩
      · refine ⟨m + 1, ?_, ?_⟩
        · rw [List.getElem?_cons_succ, List.getElem?_map, found]
          rfl
        · rw [parent, Nat.add_assoc, Nat.add_comm 1]

/-- A member that opens one region. -/
theorem sole {number : Nat} {s : Statement} {kind : ScopeKind} {body : List Statement}
    (own : members[number]? = some s) (opens : s.Opens 0 kind body)
    (alone : ∀ k other content, s.Opens k other content → k = 0)
    (h : Sited kind body (fun s => 0 ≤ s.1) ⟨next⟩ (next + 1) addresses regions) :
    ∃ all, Sited outer members (fun step => step.1 = number) scope next all
      (⟨kind, some scope, body⟩ :: regions) := by
  have within : Sited outer members (fun step => step = (number, 0)) scope next _ _ :=
    h.within own opens
  refine ⟨_, within.of_steps fun step other content stands => ?_⟩
  obtain ⟨k, j⟩ := step
  constructor
  · rintro rfl
    obtain rfl : j = 0 := alone j other content (stands.opens own)
    rfl
  · rintro ⟨⟩
    rfl

/-- A member that opens nothing. -/
theorem closed {number : Nat} {s : Statement} (own : members[number]? = some s)
    (closed : ∀ k kind body, ¬ s.Opens k kind body) :
    Sited outer members (fun step => step.1 = number) scope next [] [] := by
  refine .none fun step kind body stands opens => ?_
  obtain rfl : step.1 = number := stands
  exact closed step.2 kind body (opens.opens own)

/-- After the last member. -/
theorem done {number : Nat} (own : members.drop number = []) :
    Sited outer members (fun step => number ≤ step.1) scope next [] [] := by
  refine .none fun step kind body late opens => ?_
  obtain ⟨s, found, -⟩ := opens
  have inside := (List.getElem?_eq_some_iff.mp found).1
  have whole := List.drop_eq_nil_iff.mp own
  omega

/-- A member and those after it. -/
theorem cons {number : Nat}
    (h : Sited outer members (fun step => step.1 = number) scope next addresses regions)
    (k : Sited outer members (fun step => number + 1 ≤ step.1) scope (next + regions.length) more
      others) :
    ∃ all, Sited outer members (fun step => number ≤ step.1) scope next all (regions ++ others) :=
  ⟨_, (h.append k fun step here later => by omega).of_steps fun step _ _ _ => by omega⟩

end Sited

/-! ## Regions of a file -/

theorem getElem?_of_drop {α : Type} {list rest : List α} {a : α} {n : Nat}
    (h : list.drop n = a :: rest) : list[n]? = some a ∧ list.drop (n + 1) = rest := by
  refine ⟨?_, by rw [← List.drop_drop, h]; rfl⟩
  rw [← Nat.add_zero n, ← List.getElem?_drop, h]
  rfl

mutual

/-- What is opened by an item that is one of some members. -/
theorem sited_item (outer : ScopeKind) (members : List Statement) (scope : ScopeId) (next : Nat)
    (number : Nat) : ∀ i : Item, members[number]? = some (.item i) →
    ∃ addresses, Sited outer members (fun step => step.1 = number) scope next addresses
      (Regions.item scope next i)
  | .module head spelling content, own => by
    obtain ⟨_, inner⟩ := sited_items .module (content.map .item) ⟨next⟩ (next + 1) 0 content rfl
    rw [Regions.item]
    refine inner.sole own (.module head spelling content) fun _ _ _ opens => ?_
    cases opens
    rfl
  | .function head spelling body, own => by
    obtain ⟨_, inner⟩ := sited_statements .block body ⟨next⟩ (next + 1) 0 body rfl
    rw [Regions.item]
    refine inner.sole own (.function head spelling body) fun _ _ _ opens => ?_
    cases opens
    rfl
  | .implementation head functions, own => by
    obtain ⟨addresses, sited⟩ := sited_bodies outer members scope next number 0 own functions rfl
    rw [Regions.item]
    exact ⟨addresses, sited.of_steps fun _ _ _ _ => by simp⟩
  | .ruleSet _ _, own | .invocation _ _, own | .moduleElsewhere _ _, own | .leaf _ _ _, own
  | .raw _, own => by
    simp only [Regions.item]
    exact ⟨[], .closed own fun _ _ _ opens => by cases opens⟩
termination_by structural i => i

theorem sited_items (outer : ScopeKind) (members : List Statement) (scope : ScopeId) (next : Nat)
    (number : Nat) : ∀ list : List Item, members.drop number = list.map .item →
    ∃ addresses, Sited outer members (fun step => number ≤ step.1) scope next addresses
      (Regions.items scope next list)
  | [], own => by
    rw [Regions.items]
    exact ⟨[], .done (by simpa using own)⟩
  | i :: rest, own => by
    obtain ⟨here, later⟩ := getElem?_of_drop own
    obtain ⟨_, first⟩ := sited_item outer members scope next number i here
    obtain ⟨_, others⟩ := sited_items outer members scope
      (next + (Regions.item scope next i).length) (number + 1) rest later
    rw [Regions.items]
    exact first.cons others
termination_by structural list => list

theorem sited_statement (outer : ScopeKind) (members : List Statement) (scope : ScopeId)
    (next : Nat) (number : Nat) : ∀ s : Statement, members[number]? = some s →
    ∃ addresses, Sited outer members (fun step => step.1 = number) scope next addresses
      (Regions.statement scope next s)
  | .item i, own => by
    rw [Regions.statement]
    exact sited_item outer members scope next number i own
  | .invocation _ _ _, own => by
    rw [Regions.statement]
    exact ⟨[], .closed own fun _ _ _ opens => by cases opens⟩
termination_by structural s => s

theorem sited_statements (outer : ScopeKind) (members : List Statement) (scope : ScopeId)
    (next : Nat) (number : Nat) : ∀ list : List Statement, members.drop number = list →
    ∃ addresses, Sited outer members (fun step => number ≤ step.1) scope next addresses
      (Regions.statements scope next list)
  | [], own => by
    rw [Regions.statements]
    exact ⟨[], .done (by simpa using own)⟩
  | s :: rest, own => by
    obtain ⟨here, later⟩ := getElem?_of_drop own
    obtain ⟨_, first⟩ := sited_statement outer members scope next number s here
    obtain ⟨_, others⟩ := sited_statements outer members scope
      (next + (Regions.statement scope next s).length) (number + 1) rest later
    rw [Regions.statements]
    exact first.cons others
termination_by structural list => list

/-- What is opened by an implementation from one of its functions on. -/
theorem sited_bodies (outer : ScopeKind) (members : List Statement) (scope : ScopeId) (next : Nat)
    (number nth : Nat) {head : ItemHead} {functions : List (List Statement)}
    (own : members[number]? = some (.item (.implementation head functions))) :
    ∀ list : List (List Statement), functions.drop nth = list →
    ∃ addresses, Sited outer members (fun step => step.1 = number ∧ nth ≤ step.2) scope next
      addresses (Regions.bodies scope next list)
  | [], left => by
    rw [Regions.bodies]
    refine ⟨[], .none fun (k, j) kind body ⟨stands, late⟩ opens => ?_⟩
    obtain rfl : k = number := stands
    cases opens.opens own with
    | method found =>
      have inside := (List.getElem?_eq_some_iff.mp found).1
      have whole := List.drop_eq_nil_iff.mp left
      omega
  | body :: rest, left => by
    obtain ⟨here, later⟩ := getElem?_of_drop left
    obtain ⟨_, inner⟩ := sited_statements .block body ⟨next⟩ (next + 1) 0 body rfl
    obtain ⟨_, others⟩ := sited_bodies outer members scope
      (next + 1 + (Regions.statements ⟨next⟩ (next + 1) body).length) number (nth + 1)
      own rest later
    have first : Sited outer members (fun step => step = (number, nth)) scope next _
        (⟨.block, some scope, body⟩ :: _) := inner.within own (.method here)
    have length : next + 1 + (Regions.statements ⟨next⟩ (next + 1) body).length =
        next + (Region.mk .block (some scope) body ::
          Regions.statements ⟨next⟩ (next + 1) body).length := by
      rw [List.length_cons]
      omega
    rw [Regions.bodies]
    rw [length] at others ⊢
    have both := first.append others fun step here later => by
      subst here
      exact Nat.lt_irrefl nth later.2
    refine ⟨_, both.of_steps fun (k, j) _ _ _ => ?_⟩
    rw [Prod.mk.injEq]
    omega
termination_by structural list => list

end

/-- The regions of a file have addresses of their own, and every address that leads to a region is
among them. -/
structure Addressed (content : List Item) (addresses : List (List Step)) : Prop where
  length : addresses.length = (Regions.ofFile content).length
  apart : addresses.Nodup
  complete : ∀ address kind members,
    Reaches .module (content.map .item) address kind members → address ∈ addresses
  reached : ∀ (n : Nat) (address : List Step) (region : Region), addresses[n]? = some address →
    (Regions.ofFile content)[n]? = some region →
    Reaches .module (content.map .item) address region.kind region.members ∧
    ((address = [] ∧ region.parent = none) ∨
      ∃ outer step m, address = outer ++ [step] ∧ addresses[m]? = some outer ∧
        region.parent = some ⟨m⟩)

theorem exists_addressed (content : List Item) : ∃ addresses, Addressed content addresses := by
  obtain ⟨addresses, sited⟩ :=
    sited_items .module (content.map .item) ScopeTree.root 1 0 content rfl
  have apart : ([] :: addresses).Nodup := by
    refine List.nodup_cons.mpr ⟨fun member => ?_, sited.apart⟩
    obtain ⟨_, _, same, -⟩ := sited.begins _ member
    cases same
  refine ⟨[] :: addresses, ?_, apart, ?_, ?_⟩
  · rw [Regions.ofFile, List.length_cons, List.length_cons, sited.length]
  · intro address kind members reaches
    cases address with
    | nil => exact List.mem_cons_self
    | cons step rest =>
      exact List.mem_cons_of_mem _ (sited.complete step rest kind members (Nat.zero_le _) reaches)
  · intro n address region found made
    cases n with
    | zero =>
      cases found
      cases made
      exact ⟨.here .module _, Or.inl ⟨rfl, rfl⟩⟩
    | succ n =>
      obtain ⟨reaches, outer, step, same, parent⟩ := sited.reached n address region found made
      refine ⟨reaches, Or.inr ⟨outer, step, ?_⟩⟩
      rcases parent with ⟨rfl, parent⟩ | ⟨m, found, parent⟩
      · exact ⟨0, same, rfl, parent⟩
      · exact ⟨m + 1, same, found, by rw [parent, Nat.add_comm]⟩

end MacroExpansion
