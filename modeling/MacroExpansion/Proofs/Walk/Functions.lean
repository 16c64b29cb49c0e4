import MacroExpansion.Proofs.Expansion.Settlement
import MacroExpansion.Proofs.Walk.Reading

/-!
# Functions by name

The functions of a file are those in place of an item or of a statement, in the order they start in.
The walk registers one once its body has been walked, so one that holds another of its name comes
too late: by a name, the body is found of the first function that holds none of that name. Where no
function holds one of its own name, that is the first function of the name, and its body is the one
with the smallest number.
-/
namespace MacroExpansion

/-- A function in place of an item or of a statement. -/
structure FreeFunction where
  name : Ident
  /-- The number of the region that its body is. -/
  body : ScopeId
  content : List Statement

namespace Functions

mutual

/-- The functions within an item of `scope`, itself included; the regions within it are numbered
from `next` on. -/
def item (scope : ScopeId) (next : Nat) : Item → List FreeFunction
  | .module _ _ members => items ⟨next⟩ (next + 1) members
  | .function _ spelling body =>
    ⟨.ofSpelling spelling, ⟨next⟩, body⟩ :: statements ⟨next⟩ (next + 1) body
  | .implementation _ functions => bodies scope next functions
  | _ => []

def items (scope : ScopeId) (next : Nat) : List Item → List FreeFunction
  | [] => []
  | i :: rest => item scope next i ++ items scope (next + (Regions.item scope next i).length) rest

def statement (scope : ScopeId) (next : Nat) : Statement → List FreeFunction
  | .item i => item scope next i
  | .invocation _ _ _ => []

def statements (scope : ScopeId) (next : Nat) : List Statement → List FreeFunction
  | [] => []
  | s :: rest =>
    statement scope next s ++
      statements scope (next + (Regions.statement scope next s).length) rest

/-- The functions within the bodies of an implementation, whose own functions are not free. -/
def bodies (scope : ScopeId) (next : Nat) : List (List Statement) → List FreeFunction
  | [] => []
  | body :: rest =>
    statements ⟨next⟩ (next + 1) body ++
      bodies scope (next + 1 + (Regions.statements ⟨next⟩ (next + 1) body).length) rest

end

/-- The functions of a file in source order. -/
def ofFile (content : List Item) : List FreeFunction :=
  items ScopeTree.root 1 content

end Functions

namespace FreeFunction

/-- The functions within its body. -/
def within (f : FreeFunction) : List FreeFunction :=
  Functions.statements f.body (f.body.index + 1) f.content

/-- Whether another function of its name is within its body. -/
def holdsNamesake (f : FreeFunction) : Bool :=
  f.within.any fun g => g.name = f.name

/-- Whether it has a name, and no function within it has that too. -/
def isInnermost (name : Ident) (f : FreeFunction) : Bool :=
  f.name = name && !f.holdsNamesake

theorem isInnermost_iff {name : Ident} {f : FreeFunction} :
    f.isInnermost name ↔ f.name = name ∧ ∀ g ∈ f.within, g.name ≠ name := by
  rw [isInnermost, Bool.and_eq_true, decide_eq_true_iff, Bool.not_eq_true', holdsNamesake,
    List.any_eq_false]
  refine and_congr_right fun same => forall₂_congr fun g _ => ?_
  rw [decide_eq_true_iff, same]

end FreeFunction

/-- The function that something placed is, with what is in its body. -/
def Placed.function? (p : Placed) : Option (Ident × List Statement) :=
  match p.content with
  | .item (.function _ spelling body) => some (.ofSpelling spelling, body)
  | _ => none

/-- The function that a step registers. -/
def TreeStep.registered? : TreeStep → Option (Ident × ScopeId)
  | register name body => some (name, body)
  | _ => none

/-- Some placed items and statements have these functions, whose bodies are among these regions;
what the steps register by a name is the body of an innermost one. The regions are numbered from
`next` on. -/
structure Registers (next : Nat) (steps : List TreeStep) (regions : List Region)
    (placed : List Placed) (functions : List FreeFunction) : Prop where
  listed : placed.filterMap Placed.function? = functions.map fun f => (f.name, f.content)
  region : ∀ f ∈ functions, ∃ k parent, f.body.index = next + k ∧
    regions[k]? = some ⟨.block, parent, f.content⟩
  ordered : functions.Pairwise fun f g => f.body.index < g.body.index
  registered : ∀ name, (steps.filterMap TreeStep.registered?).lookup name =
    (functions.find? (FreeFunction.isInnermost name)).map FreeFunction.body
  /-- Of functions of one name, some are innermost. -/
  innermost : ∀ name, functions.find? (FreeFunction.isInnermost name) = none →
    ∀ f ∈ functions, f.name ≠ name

namespace Registers

variable {next : Nat} {steps later : List TreeStep} {regions others : List Region}
  {placed rest : List Placed} {functions more : List FreeFunction}

/-- Steps, items and statements without any function. -/
theorem none (quiet : steps.filterMap TreeStep.registered? = [])
    (bare : placed.filterMap Placed.function? = []) : Registers next steps regions placed [] where
  listed := bare
  region := by simp
  ordered := .nil
  registered := by simp [quiet]
  innermost := by simp

theorem append (h : Registers next steps regions placed functions)
    (k : Registers (next + regions.length) later others rest more) :
    Registers next (steps ++ later) (regions ++ others) (placed ++ rest) (functions ++ more) where
  listed := by rw [List.filterMap_append, List.map_append, h.listed, k.listed]
  region := by
    intro f member
    rcases List.mem_append.mp member with first | second
    · obtain ⟨n, parent, number, found⟩ := h.region f first
      have inside : n < regions.length := (List.getElem?_eq_some_iff.mp found).1
      exact ⟨n, parent, number, by rw [List.getElem?_append_left inside, found]⟩
    · obtain ⟨n, parent, number, found⟩ := k.region f second
      refine ⟨regions.length + n, parent, by omega, ?_⟩
      rw [List.getElem?_append_right (Nat.le_add_right _ _), Nat.add_sub_cancel_left, found]
  ordered := by
    refine List.pairwise_append.mpr ⟨h.ordered, k.ordered, fun f first g second => ?_⟩
    obtain ⟨m, _, below, found⟩ := h.region f first
    obtain ⟨n, _, above, _⟩ := k.region g second
    have inside : m < regions.length := (List.getElem?_eq_some_iff.mp found).1
    omega
  registered := by
    intro name
    rw [List.filterMap_append, List.lookup_append, List.find?_append, h.registered, k.registered]
    cases functions.find? (FreeFunction.isInnermost name) <;> rfl
  innermost := by
    intro name missing f member
    rw [List.find?_append, Option.or_eq_none_iff] at missing
    rcases List.mem_append.mp member with first | second
    · exact h.innermost name missing.1 f first
    · exact k.innermost name missing.2 f second

/-- A function is registered after those within it. -/
theorem function {f : FreeFunction} {entering : List TreeStep} {p : Placed}
    {parent : Option ScopeId} (here : f.body = ⟨next⟩)
    (quiet : entering.filterMap TreeStep.registered? = [])
    (made : p.function? = some (f.name, f.content))
    (inner : Registers (next + 1) steps regions placed f.within) :
    Registers next (entering ++ steps ++ [TreeStep.register f.name f.body])
      (⟨.block, parent, f.content⟩ :: regions) (p :: placed) (f :: f.within) where
  listed := by rw [List.filterMap_cons_some made, inner.listed, List.map_cons]
  region := by
    refine List.forall_mem_cons.mpr ⟨⟨0, parent, by rw [here]; rfl, rfl⟩, fun g member => ?_⟩
    obtain ⟨k, parent, number, found⟩ := inner.region g member
    exact ⟨k + 1, parent, by omega, found⟩
  ordered := by
    refine .cons (fun g member => ?_) inner.ordered
    obtain ⟨k, _, number, _⟩ := inner.region g member
    rw [here, number]
    change next < _
    omega
  registered := by
    intro name
    have order : (entering ++ steps ++ [TreeStep.register f.name f.body]).filterMap
        TreeStep.registered? = steps.filterMap TreeStep.registered? ++ [(f.name, f.body)] := by
      rw [List.filterMap_append, List.filterMap_append, quiet]
      rfl
    rw [order, List.lookup_append, inner.registered, List.find?_cons]
    cases found : f.within.find? (FreeFunction.isInnermost name) with
    | some g =>
      have inside := List.mem_of_find?_eq_some found
      obtain ⟨named, _⟩ := FreeFunction.isInnermost_iff.mp (List.find?_some found)
      have outer : ¬ f.isInnermost name :=
        fun alone => (FreeFunction.isInnermost_iff.mp alone).2 g inside named
      rw [Bool.eq_false_iff.mpr outer]
      rfl
    | none =>
      have alone : f.isInnermost name = decide (f.name = name) := by
        rw [Bool.eq_iff_iff, decide_eq_true_iff, FreeFunction.isInnermost_iff]
        exact and_iff_left (inner.innermost name found)
      rw [alone]
      by_cases same : f.name = name
      · simp [same]
      · simp [same, Ne.symm same]
  innermost := by
    intro name missing
    obtain ⟨outer, missing⟩ := List.forall_mem_cons.mp (List.find?_eq_none.mp missing)
    have below := inner.innermost name (List.find?_eq_none.mpr missing)
    exact List.forall_mem_cons.mpr
      ⟨fun same => outer (FreeFunction.isInnermost_iff.mpr ⟨same, below⟩), below⟩

end Registers

theorem Script.registered_declaring (scope : ScopeId) (declaration : Option Declaration) :
    (declaring scope declaration).filterMap TreeStep.registered? = [] := by
  cases declaration <;> rfl

theorem Script.registered_entering (here : Standpoint) (fresh : Nat)
    (declaration : Option Declaration) (kind : ScopeKind) :
    (entering here fresh declaration kind).filterMap TreeStep.registered? = [] := by
  cases declaration <;> rfl

section

variable (file : String) (code : List Char)

theorem Script.registered_recording (context : InvocationContext) (call : MacroCall) (here : Nat)
    (extent : Extent) :
    (recording file code context call here extent).filterMap TreeStep.registered? = [] := by
  unfold recording
  split <;> rfl

mutual

theorem registers_item (here : Standpoint) (next : Supply) (levels : List (List Statement)) :
    ∀ i : Item, Registers next.scopes (Script.item file code here next i)
      (Regions.item here.scope next.scopes i)
      (Outline.item here.scope here.kind next.scopes levels i)
      (Functions.item here.scope next.scopes i)
  | .ruleSet head spelling => by
    simp only [Script.item, Regions.item, Outline.item, Functions.item]
    split <;> exact .none rfl rfl
  | .invocation head call => by
    simp only [Script.item, Regions.item, Outline.item, Functions.item]
    exact .none (Script.registered_recording file code _ call _ _) rfl
  | .module head spelling members => by
    have opening : Registers next.scopes
        (Script.entering here next.positions
          ((Item.module head spelling members).declaration? file) .module)
        [⟨.module, some here.scope, members.map .item⟩]
        [⟨here.scope, here.kind, levels, .item (.module head spelling members)⟩] [] :=
      .none (Script.registered_entering _ _ _ _) rfl
    rw [Script.item, Regions.item, Outline.item, Functions.item]
    exact opening.append (registers_items ⟨⟨next.scopes⟩, .module, next.positions + 1⟩
      ⟨next.scopes + 1, next.positions + 2⟩ [] levels members)
  | .moduleElsewhere head spelling => by
    simp only [Script.item, Regions.item, Outline.item, Functions.item]
    refine .none ?_ rfl
    rw [List.filterMap_append, Script.registered_declaring]
    rfl
  | .function head spelling body => by
    have content := registers_statements ⟨⟨next.scopes⟩, .block, next.positions + 1⟩
      ⟨next.scopes + 1, next.positions + 2⟩ [] levels body
    rw [Script.item, Regions.item, Outline.item, Functions.item]
    exact .function (f := ⟨.ofSpelling spelling, ⟨next.scopes⟩, body⟩) rfl
      (Script.registered_entering _ _ _ _) rfl content
  | .implementation head functions => by
    have opening : Registers next.scopes [.append here.position none] []
        [⟨here.scope, here.kind, levels, .item (.implementation head functions)⟩] [] :=
      .none rfl rfl
    rw [Script.item, Regions.item, Outline.item, Functions.item]
    exact opening.append (registers_bodies here.scope next.positions
      ⟨next.scopes, next.positions + 1⟩ levels functions)
  | .leaf head kind name => by
    simp only [Script.item, Regions.item, Outline.item, Functions.item]
    exact .none (Script.registered_declaring _ _) rfl
  | .raw head => by
    simp only [Script.item, Regions.item, Outline.item, Functions.item]
    exact .none rfl rfl
termination_by structural i => i

theorem registers_items (here : Standpoint) (next : Supply) (before : List Statement)
    (outer : List (List Statement)) : ∀ list : List Item,
    Registers next.scopes (Script.items file code here next list)
      (Regions.items here.scope next.scopes list)
      (Outline.items here.scope here.kind next.scopes before outer list)
      (Functions.items here.scope next.scopes list)
  | [] => by
    rw [Script.items, Regions.items, Outline.items, Functions.items]
    exact .none rfl rfl
  | i :: rest => by
    have first := registers_item here next (before :: outer) i
    have later := registers_items
      { here with position := Script.afterItem file code here next.positions i }
      (next.after (Script.item file code here next i)) (before ++ [.item i]) outer rest
    rw [(follows_item file code here next (before :: outer) i).scopes_after] at later
    rw [Script.items, Regions.items, Outline.items, Functions.items]
    exact first.append later
termination_by structural list => list

theorem registers_statement (here : Standpoint) (next : Supply) (levels : List (List Statement)) :
    ∀ s : Statement, Registers next.scopes (Script.statement file code here next s)
      (Regions.statement here.scope next.scopes s)
      (Outline.statement here.scope here.kind next.scopes levels s)
      (Functions.statement here.scope next.scopes s)
  | .item i => by
    rw [Script.statement, Regions.statement, Outline.statement, Functions.statement]
    exact registers_item here next levels i
  | .invocation extent place call => by
    rw [Script.statement, Regions.statement, Outline.statement, Functions.statement]
    exact .none (Script.registered_recording file code _ call _ _) rfl
termination_by structural s => s

theorem registers_statements (here : Standpoint) (next : Supply) (before : List Statement)
    (outer : List (List Statement)) : ∀ list : List Statement,
    Registers next.scopes (Script.statements file code here next list)
      (Regions.statements here.scope next.scopes list)
      (Outline.statements here.scope here.kind next.scopes before outer list)
      (Functions.statements here.scope next.scopes list)
  | [] => by
    rw [Script.statements, Regions.statements, Outline.statements, Functions.statements]
    exact .none rfl rfl
  | s :: rest => by
    have first := registers_statement here next (before :: outer) s
    have later := registers_statements
      { here with position := Script.afterStatement file code here next.positions s }
      (next.after (Script.statement file code here next s)) (before ++ [s]) outer rest
    rw [(follows_statement file code here next (before :: outer) s).scopes_after] at later
    rw [Script.statements, Regions.statements, Outline.statements, Functions.statements]
    exact first.append later
termination_by structural list => list

theorem registers_bodies (scope : ScopeId) (position : Nat) (next : Supply)
    (outer : List (List Statement)) : ∀ list : List (List Statement),
    Registers next.scopes (Script.bodies file code scope position next list)
      (Regions.bodies scope next.scopes list) (Outline.bodies next.scopes outer scope list)
      (Functions.bodies scope next.scopes list)
  | [] => by
    rw [Script.bodies, Regions.bodies, Outline.bodies, Functions.bodies]
    exact .none rfl rfl
  | body :: rest => by
    have opening : Registers next.scopes [.addScope .block scope, .submodule position]
      [⟨.block, some scope, body⟩] [] [] := .none rfl rfl
    have inner := registers_statements
      ⟨⟨next.scopes⟩, .block, next.positions⟩ ⟨next.scopes + 1, next.positions + 1⟩ [] outer body
    have later := registers_bodies scope position
      (next.after ([.addScope .block scope, .submodule position] ++
        Script.statements file code ⟨⟨next.scopes⟩, .block, next.positions⟩
          ⟨next.scopes + 1, next.positions + 1⟩ body)) outer rest
    rw [(follows_statements file code ⟨⟨next.scopes⟩, .block, next.positions⟩
      ⟨next.scopes + 1, next.positions + 1⟩ [] outer body).scopes_after_body] at later
    have number :
        next.scopes + 1 + (Regions.statements ⟨next.scopes⟩ (next.scopes + 1) body).length =
          next.scopes + (Region.mk .block (some scope) body ::
            Regions.statements ⟨next.scopes⟩ (next.scopes + 1) body).length := by
      rw [List.length_cons]
      omega
    rw [Script.bodies, Regions.bodies, Outline.bodies, Functions.bodies]
    rw [number] at later ⊢
    exact (opening.append inner).append later
termination_by structural list => list

end

/-- The script of a file registers its functions. -/
theorem registers_ofFile (content : List Item) :
    Registers 1 (Script.ofFile file code content) (Regions.items ScopeTree.root 1 content)
      (Outline.ofFile content) (Functions.ofFile content) := by
  have walked : Registers (1 + (Regions.items ScopeTree.root 1 content).length)
      [.report (.walked file)] [] [] [] := .none rfl rfl
  have all := (registers_items file code ⟨ScopeTree.root, .module, 0⟩ ⟨1, 1⟩ [] [] content).append
    walked
  rw [List.append_nil, List.append_nil, List.append_nil] at all
  exact all

end

/-! ## Functions that a tree finds -/

namespace TracedTree

/-- A name keeps the function that is registered for it first. -/
theorem functionScope?_step (t : TracedTree) (s : TreeStep) (name : Ident) :
    (t.step s).tree.functionScope? name =
      (t.tree.functionScope? name).or (s.registered?.toList.lookup name) := by
  cases s with
  | register other body =>
    change (t.register other body).tree.functions.lookup name =
      (t.tree.functions.lookup name).or ([(other, body)].lookup name)
    unfold register
    split
    next earlier known =>
      by_cases same : name = other
      · rw [SourceTree.functionScope?, ← same] at known
        rw [report, known]
        rfl
      · have different : (name == other) = false := beq_false_of_ne same
        simp [report, List.lookup_cons, different]
    next => exact List.lookup_append
  | declare scope d =>
    obtain ⟨scopes, events, made, _⟩ := t.declare_frame scope d
    rw [step, made]
    exact (Option.or_none).symm
  | report _ | addScope _ _ | append _ _ | submodule _ | record _ _ =>
    exact (Option.or_none).symm

theorem functionScope?_run (t : TracedTree) (steps : List TreeStep) (name : Ident) :
    (t.run steps).tree.functionScope? name =
      (t.tree.functionScope? name).or ((steps.filterMap TreeStep.registered?).lookup name) := by
  induction steps generalizing t with
  | nil => simp
  | cons s rest ih =>
    rw [run_cons, ih, functionScope?_step, Option.or_assoc, ← List.lookup_append,
      List.filterMap_cons]
    cases s.registered? <;> rfl

end TracedTree

namespace SourceTree

theorem functionScope?_expanded (tree : SourceTree) (name : Ident) :
    tree.expanded.tree.functionScope? name = tree.functionScope? name := by
  have nothingRegistered : tree.expansionSteps.filterMap TreeStep.registered? = [] := by
    apply List.filterMap_eq_nil_iff.mpr
    intro s member
    obtain ⟨_, rfl, _⟩ | ⟨_, _, rfl⟩ := expansionSteps_cases member <;> rfl
  have run := TracedTree.functionScope?_run ⟨tree, []⟩ tree.expansionSteps name
  rw [nothingRegistered, List.lookup_nil, Option.or_none] at run
  exact run

/-- What a tree finds by the name of a function, told from what the file holds. -/
structure FindsFunctions (tree : SourceTree) (content : List Item) (name : Ident) : Prop where
  /-- The functions are those of the outline, in source order. -/
  listed : (Outline.ofFile content).filterMap Placed.function? =
    (Functions.ofFile content).map fun f => (f.name, f.content)
  body : ∀ f ∈ Functions.ofFile content, ∃ parent,
    (Regions.ofFile content)[f.body.index]? = some ⟨.block, parent, f.content⟩
  ordered : (Functions.ofFile content).Pairwise fun f g => f.body.index < g.body.index
  found : tree.functionScope? name =
    ((Functions.ofFile content).find? (FreeFunction.isInnermost name)).map FreeFunction.body
  unknown : tree.functionScope? name = none ↔ ∀ f ∈ Functions.ofFile content, f.name ≠ name
  /-- It is the first one of the name exactly if that holds none of its name. -/
  first : ∀ f, (Functions.ofFile content).find? (fun g => g.name = name) = some f →
    (∀ g ∈ Functions.ofFile content, g.name = name → f.body.index ≤ g.body.index) ∧
    (tree.functionScope? name = some f.body ↔ f.holdsNamesake = false)

theorem findsFunctions_ofItems (file : String) (code : List Char) (content : List Item)
    (name : Ident) : (ofItems file code content).tree.FindsFunctions content name := by
  have walk := registers_ofFile file code content
  have found : (ofItems file code content).tree.functionScope? name =
      ((Functions.ofFile content).find? (FreeFunction.isInnermost name)).map
        FreeFunction.body := by
    rw [ofItems_eq_run, TracedTree.functionScope?_run, walk.registered]
    rfl
  refine ⟨walk.listed, ?_, walk.ordered, found, ?_, ?_⟩
  · intro f member
    obtain ⟨k, parent, number, body⟩ := walk.region f member
    refine ⟨parent, ?_⟩
    rw [Regions.ofFile, number, Nat.add_comm, List.getElem?_cons_succ]
    exact body
  · rw [found, Option.map_eq_none_iff]
    refine ⟨walk.innermost name, fun other => List.find?_eq_none.mpr fun f member alone => ?_⟩
    exact other f member (FreeFunction.isInnermost_iff.mp alone).1
  · intro f earliest
    obtain ⟨named, before, after, split, others⟩ := List.find?_eq_some_iff_append.mp earliest
    have named : f.name = name := of_decide_eq_true named
    have below : ∀ g ∈ after, f.body.index < g.body.index := by
      have ordered := walk.ordered
      rw [split] at ordered
      exact (List.pairwise_cons.mp (List.pairwise_append.mp ordered).2.1).1
    have others : ∀ g ∈ before, g.name ≠ name := fun g member => by simpa using others g member
    have skipped : before.find? (FreeFunction.isInnermost name) = none :=
      List.find?_eq_none.mpr fun g member alone =>
        others g member (FreeFunction.isInnermost_iff.mp alone).1
    have innermost : f.isInnermost name = !f.holdsNamesake := by
      rw [FreeFunction.isInnermost, decide_eq_true named, Bool.true_and]
    rw [found, split, List.find?_append, skipped, Option.none_or, List.find?_cons, innermost]
    refine ⟨fun g member same => ?_, ?_⟩
    · rcases List.mem_append.mp member with earlier | later
      · exact absurd same (others g earlier)
      · rcases List.mem_cons.mp later with rfl | later
        · exact Nat.le_refl _
        · exact Nat.le_of_lt (below g later)
    · cases f.holdsNamesake with
      | false => simp
      | true =>
        refine iff_of_false (fun same => ?_) Bool.noConfusion
        obtain ⟨g, later, same⟩ := Option.map_eq_some_iff.mp same
        have later := below g (List.mem_of_find?_eq_some later)
        rw [same] at later
        exact Nat.lt_irrefl _ later

/-- In the tree of a file, before and after any requests, a name finds the body of the first
function of that name that holds no other one, and nothing if no function has it. -/
theorem served_functions_found {file : String} {source : List Char} {parsed last : TracedTree}
    {requests : List Request} {answers : List Answer} (accepted : parse file source = .ok parsed)
    (served : parsed.serveAll requests = .ok (last, answers)) :
    ∃ content, Grammar.parseFile (Text.codeOf source) = .ok content ∧
      ∀ name, last.tree.FindsFunctions content name := by
  obtain ⟨content, read, rfl⟩ := ofItems_of_parse accepted
  have fresh := expansions_ofItems file (Text.stripPreamble source) content
  refine ⟨content, read, fun name => ?_⟩
  have made := findsFunctions_ofItems file (Text.stripPreamble source) content name
  rw [TracedTree.last_of_served fresh served]
  split
  · have same := functionScope?_expanded
      (ofItems file (Text.stripPreamble source) content).tree name
    exact ⟨made.listed, made.body, made.ordered, same.trans made.found, same ▸ made.unknown,
      fun f earliest => same ▸ made.first f earliest⟩
  · exact made

/-- A function within one of another name, and one of its name that follows. -/
theorem served_functions_found_nested :
    ∃ parsed last answers content, parse "a.rs" "fn g(){fn f(){}}fn f(){}".toList = .ok parsed ∧
      parsed.serveAll [.expandAll] = .ok (last, answers) ∧
      Grammar.parseFile (Text.codeOf "fn g(){fn f(){}}fn f(){}".toList) = .ok content ∧
      ∀ name, last.tree.FindsFunctions content name := by
  have evaluated : (parse "a.rs" "fn g(){fn f(){}}fn f(){}".toList).toOption.map
      (fun t => (t.tree.expansionAborts, t.tree.expansions)) = some (false, none) := by
    decide +kernel
  obtain ⟨parsed, read, found⟩ := Option.map_eq_some_iff.mp evaluated
  obtain ⟨finished, fresh⟩ := Prod.mk.inj found
  have accepted := Attempt.of_toOption read
  have served := TracedTree.serveAll_of_fresh fresh List.not_mem_nil []
  rw [finished] at served
  obtain ⟨content, read, finds⟩ := served_functions_found accepted served
  exact ⟨parsed, _, _, content, accepted, served, read, finds⟩

/-- Of two functions of one name, one in the body of the other, the inner one is found, although the
outer one starts first. -/
theorem inner_namesake_found :
    (Grammar.parseFile (Text.codeOf "fn f(){fn f(){}}".toList)).toOption.map
        (fun content => (Functions.ofFile content).map fun f => (f.name, f.body)) =
      some [(.ofSpelling "f", ⟨1⟩), (.ofSpelling "f", ⟨2⟩)] ∧
    (parse "a.rs" "fn f(){fn f(){}}".toList).toOption.map
        (fun t => t.tree.functionScope? (.ofSpelling "f")) =
      some (some ⟨2⟩) := by
  constructor <;> decide +kernel

end SourceTree

end MacroExpansion
