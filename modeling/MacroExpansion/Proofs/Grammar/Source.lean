import MacroExpansion.Proofs.Grammar.Calls
import MacroExpansion.Tree.ScopeTree

/-!
# Where items come from

The items of a file, and what is in their braces and bodies however deep, were each read from tokens
that stand in a row in the file. Main statement: whatever item a parsed file holds was read as an
item, or as an invocation among statements, where a level of the file's tokens went on; and so was
every invocation that is an expression there.
-/
namespace MacroExpansion

/-- What stands directly in an item. -/
def Item.content : Item → List Statement
  | module _ _ items => items.map .item
  | function _ _ body => body
  | implementation _ bodies => bodies.flatten
  | _ => []

/-- What holds the content of an item: the module that it is, or a body. -/
def Item.contentKind : Item → ScopeKind
  | module _ _ _ => .module
  | _ => .block

/-- An item that stands in a region of one kind is there, or stands in it, however deep, in a region
of another. -/
inductive Item.Holds : ScopeKind → Item → ScopeKind → Item → Prop where
  | self (kind : ScopeKind) (i : Item) : Holds kind i kind i
  | inner {outer kind : ScopeKind} {i j k : Item} (member : .item j ∈ i.content)
    (deeper : Holds i.contentKind j kind k) : Holds outer i kind k

namespace Grammar

open TokenTree

variable {α β : Type} {root : List TokenTree}

/-- How an item was read, and of which tokens: by the grammar of items, or in a body as a statement
that is an invocation. -/
inductive ReadOf (taken : List TokenTree) : ScopeKind → Item → Prop where
  | item {kind : ScopeKind} {i : Item} {r : Rules} {c d : Cursor} (read : item r c = .ok (i, d))
    (took : Took taken c d) (closed : Closed taken) : ReadOf taken kind i
  | statement {i : Item} {final : Bool} {c d : Cursor}
    (read : callStatement c = .ok (⟨some (.item i), final⟩, d)) (took : Took taken c d) :
    ReadOf taken .block i

/-! ## Items of a text -/

/-- An item in a region of some kind, and all that it holds, was read of tokens that stand in a row
in a text. -/
def Sourced (root : List TokenTree) (kind : ScopeKind) (i : Item) : Prop :=
  ∀ inner k, i.Holds kind inner k →
    (∃ taken, Row root taken ∧ ReadOf taken inner k) ∧
    ∀ extent position call, .invocation extent position call ∈ k.content → CallStands root call

/-- So was a statement, be it an item or an invocation. -/
def SourcedIn (root : List TokenTree) (kind : ScopeKind) : Statement → Prop
  | .item i => Sourced root kind i
  | .invocation _ _ call => CallStands root call

theorem Sourced.of_content {kind : ScopeKind} {i : Item} {taken : List TokenTree}
    (row : Row root taken) (own : ReadOf taken kind i)
    (within : ∀ s ∈ i.content, SourcedIn root i.contentKind s) : Sourced root kind i := by
  intro inner k holds
  cases holds with
  | self => exact ⟨⟨taken, row, own⟩, fun _ _ _ member => within _ member⟩
  | inner member deeper =>
    have sourced : Sourced root i.contentKind _ := within _ member
    exact sourced inner k deeper

theorem Sourced.content {kind : ScopeKind} {i : Item} (h : Sourced root kind i) :
    ∀ s ∈ i.content, SourcedIn root i.contentKind s := by
  intro s member
  cases s with
  | item j => exact fun inner k deeper => h inner k (.inner member deeper)
  | invocation extent position call => exact (h kind i (.self kind i)).2 extent position call member

/-- What the rules read of a text was read so. -/
structure Rules.Sourced (root : List TokenTree) (r : Rules) : Prop where
  item : Tells root r.item fun i => ∀ kind, Grammar.Sourced root kind i
  statements : Tells root r.statements fun read => ∀ s ∈ read, SourcedIn root .block s
  calls : r.CallsStand root

/-- What an item holds was read of a text, whatever its head. -/
def ItemBody.Sourced (root : List TokenTree) (body : ItemBody) : Prop :=
  ∀ head, ∀ s ∈ (body.build head).content, SourcedIn root (body.build head).contentKind s

theorem ItemBody.sourced_bare {body : ItemBody} (bare : ∀ head, (body.build head).content = []) :
    body.Sourced root := by
  intro head s member
  rw [bare head] at member
  cases member

theorem content_itemOfCall (head : ItemHead) (call : MacroCall) (spelling : Option String) :
    (itemOfCall head call spelling).content = [] := by
  unfold itemOfCall
  split
  · split <;> rfl
  · rfl

section

variable {r : Rules} [tracked : Rules.Tracked (fun _ => False) r r] (rules : r.Sourced root)

include rules

omit tracked in
theorem tells_attributedBlock :
    Tells root (attributedBlock r) fun read => ∀ s ∈ read.2, SourcedIn root .block s :=
  .braces (.bind fun _ => .map rules.statements fun _ told => told)

theorem tells_functionItem : Tells root (functionItem r) (ItemBody.Sourced root) := by
  refine .bind fun _ => .bind fun _ => .bind fun _ => .ite ?_ ?_
  · exact .of_ensures (.pure (ItemBody.sourced_bare fun _ => rfl))
  · exact .map (tells_attributedBlock rules) fun _ told _ => told

theorem tells_moduleItem : Tells root (moduleItem r) (ItemBody.Sourced root) := by
  refine .bind fun _ => .bind fun _ => .bind fun _ => .bind fun _ => .ite ?_ ?_
  · exact .of_ensures (.pure (ItemBody.sourced_bare fun _ => rfl))
  · have content : Tells root
        (do
          let attributes ← innerAttributes
          return (attributes, ← untilEnd r.item))
        fun read => ∀ i ∈ read.2, ∀ kind, Sourced root kind i :=
      .bind fun _ => .map (.untilEnd rules.item) fun _ told => told
    refine .map content.braces fun (attributes, items) told _ s member => ?_
    obtain ⟨i, among, rfl⟩ := List.mem_map.mp member
    exact told i among .module

theorem tells_implementationMember :
    Tells root (implementationMember r) fun read =>
      ∀ body ∈ read, ∀ s ∈ body, SourcedIn root .block s := by
  unfold implementationMember
  refine .bind fun _ => .bind fun _ => .bind fun _ => .bind fun _ => .ite ?_ ?_
  · have bodiless : Ensures (pure (some [])) fun read : Option (List Statement) =>
        ∀ body ∈ read, ∀ s ∈ body, SourcedIn root .block s :=
      .pure fun body same s member => by
        cases same
        cases member
    refine .bind fun _ => .bind fun _ => .ite (.of_ensures bodiless) ?_
    exact .map (tells_attributedBlock rules) fun (_, body) told other same => by
      cases same
      exact told
  · refine .of_ensures ?_
    repeat' first
      | with_reducible refine Ensures.bind fun _ => ?_
      | with_reducible exact Ensures.refuse
      | split
      | exact Ensures.pure fun _ same => nomatch same

/-- The braces of an implementation. -/
theorem tells_implementationBraces (raw : Bool) : Tells root
    (do
      let (attributes, members) ← delimited .brace do
        let attributes ← innerAttributes
        return (attributes, ← untilEnd (implementationMember r))
      if raw then return .raw
      return ⟨attributes, fun head => .implementation head (members.filterMap id)⟩)
    (ItemBody.Sourced root) := by
  have content : Tells root
      (do
        let attributes ← innerAttributes
        return (attributes, ← untilEnd (implementationMember r)))
      fun read => ∀ member ∈ read.2, ∀ body ∈ member, ∀ s ∈ body, SourcedIn root .block s :=
    .bind fun _ => .map (.untilEnd (tells_implementationMember rules)) fun _ told => told
  refine .bind_of content.braces fun read told => .ite ?_ ?_
  · exact .of_ensures (.pure (ItemBody.sourced_bare fun _ => rfl))
  · refine .of_ensures (.pure fun head s member => ?_)
    obtain ⟨body, among, inside⟩ := List.mem_flatten.mp member
    obtain ⟨_, one, rfl⟩ := List.mem_filterMap.mp among
    exact told _ one body rfl s inside

theorem tells_implementationItem : Tells root (implementationItem r) (ItemBody.Sourced root) := by
  unfold implementationItem
  repeat' first
    | exact tells_implementationBraces rules _
    | with_reducible refine Tells.bind fun _ => ?_
    | split

theorem tells_itemBody : Tells root (itemBody r) (ItemBody.Sourced root) := by
  refine .bind fun form => ?_
  cases form with
  | function => exact tells_functionItem rules
  | module => exact tells_moduleItem rules
  | implementation => exact tells_implementationItem rules
  | call =>
    refine .of_ensures (.bind fun _ => .pure (ItemBody.sourced_bare fun head => ?_))
    exact content_itemOfCall head _ _
  | _ =>
    -- every way through another form ends in an item that holds nothing
    simp only [externCrateItem, foreignBlockItem, useItem, staticItem, constItem, moduleItem,
      unsafeItem, typeAliasItem, dataItem, traitItem, rulesItem]
    refine .of_ensures ?_
    repeat' first
      | with_reducible refine Ensures.bind fun _ => ?_
      | with_reducible exact Ensures.refuse
      | split
      | exact Ensures.pure (ItemBody.sourced_bare fun _ => rfl)

theorem tells_item : Tells root (item r) fun i => ∀ kind, Sourced root kind i := by
  intro c i d ahead read kind
  have closes : Closes (fun _ => False) AlikeItems (item r) (item r) := closes_item r r
  obtain ⟨_, took, closed⟩ := closes.reads read
  refine .of_content (ahead.row took) (.item read took closed) ?_
  have content : Tells root
      (do
        let attributes ← outerAttributes
        return (attributes, ← itemBody r)) fun read => read.2.Sourced root :=
    .bind fun _ => .map (tells_itemBody rules) fun _ told => told
  obtain ⟨_, start, noted, later⟩ := of_bind read
  obtain ⟨⟨⟨attributes, body⟩, extent⟩, stop, placed, given⟩ := of_bind later
  obtain ⟨_, _, got, given⟩ := of_bind given
  cases noted
  cases got
  cases given
  obtain ⟨_, _, got, placed⟩ := of_bind placed
  cases got
  obtain ⟨_, _, inner, placed⟩ := of_bind placed
  obtain ⟨_, _, got, given⟩ := of_bind placed
  cases got
  cases given
  exact content ⟨c.rest, false, c.last⟩ _ _ ahead inner _

/-! ## Statements -/

omit rules tracked in
theorem tells_callStatement : Tells root callStatement fun shape =>
    ∀ s ∈ shape.kept, SourcedIn root .block s := by
  intro c shape d ahead read s kept
  obtain ⟨⟨⟨attributes, named⟩, extent⟩, _, _, given⟩ := of_bind read
  cases given
  cases kept
  have moves : Tracks (fun _ => False) false Tracks.AlikeEnds callStatement callStatement :=
    Tracks.callStatement
  obtain ⟨_, took⟩ := moves.reads read
  refine .of_content (ahead.row took) (.statement read took) fun s member => ?_
  rw [content_itemOfCall] at member
  cases member

theorem tells_statement :
    Tells root (statement r) fun shape => ∀ s ∈ shape.kept, SourcedIn root .block s := by
  refine .bind fun form => ?_
  cases form with
  | call => exact tells_callStatement
  | declaration =>
    refine .map (tells_declaration rules.calls).placed fun (call, extent) stands s kept => ?_
    obtain ⟨_, found, rfl⟩ := Option.map_eq_some_iff.mp kept
    exact stands _ found
  | item =>
    refine .map rules.item fun i told s kept => ?_
    cases kept
    exact told .block
  | expression =>
    have content : Tells root
        (do
          let _ ← outerAttributes
          let shape ← r.early
          return (shape, ← symbol? ";")) fun read => ExprStands root read.1 :=
      .bind fun _ => .bind_of rules.calls.early fun _ stands =>
        .of_ensures (.bind fun _ => .pure stands)
    refine .map content.placed fun ((shape, ended), extent) stands s kept => ?_
    cases shape <;> cases kept
    exact stands _ rfl

theorem tells_statements :
    Tells root (statements r) fun read => ∀ s ∈ read, SourcedIn root .block s := by
  have ends : Tracks (fun _ => False) false Tracks.AlikeEnds (statement r) (statement r) :=
    Tracks.statement
  have moves : Moves (statement r) := ends.weaken fun _ _ _ => trivial
  have one (read : List Statement) : Moves
      (do
        let shape ← statement r
        let read := shape.kept.toList ++ read
        if ← peek .nothing then return (read, false)
        if shape.final then refuse
        return (read, true)) := by
    refine ends.bind fun shape shape' alike => Tracks.seq fun done => ?_
    rw [show shape'.final = shape.final from alike]
    infer_instance
  refine .map (.rounds (fun read (holds : ∀ s ∈ read, SourcedIn root .block s) => ?_) ?_)
    fun read told s member => told s (List.mem_reverse.mp member)
  · refine .bind fun _ => .ite (.of_ensures (.pure holds)) (.bind fun _ => .ite ?_ ?_)
    · exact .of_ensures (.pure holds)
    · refine .bind_of (tells_statement rules) fun shape told => ?_
      have whole : ∀ s ∈ shape.kept.toList ++ read, SourcedIn root .block s := fun s member =>
        (List.mem_append.mp member).elim (fun kept => told s (Option.mem_toList.mp kept)) (holds s)
      refine .bind fun _ => .ite (.of_ensures (.pure whole)) (.of_ensures ?_)
      split
      · exact .bind fun _ => .pure whole
      · exact .pure whole
  · exact fun s member => nomatch member

end

/-- Whatever the rules read of a text was read so. -/
theorem sourced_rules (depth : Nat) : (rules depth).Sourced root := by
  induction depth with
  | zero => exact ⟨.of_ensures .refuse, .of_ensures .refuse, callsStand_rules 0⟩
  | succ depth ih =>
    have tracked : Rules.Tracked (fun _ => False) (rules depth) (rules depth) :=
      tracked_rules (Nat.le_refl depth)
    exact ⟨tells_item ih, tells_statements ih, callsStand_rules (depth + 1)⟩

/-- The items of a file, and all that they hold, were read of the file. -/
theorem sourced_of_parseFile {code : List Char} {items : List Item}
    (parsed : parseFile code = .ok items) :
    ∃ tokens, ofText? code = some tokens ∧ ∀ i ∈ items, Sourced tokens .module i := by
  obtain ⟨tokens, found, read⟩ := of_parseText parsed
  obtain ⟨after, read, -⟩ := of_parseAll read
  have tracked : Rules.Tracked (fun _ => False) (rulesFor tokens) (rulesFor tokens) :=
    tracked_rules (Nat.le_refl _)
  have told : Tells tokens (fileItems (rulesFor tokens)) fun read =>
      ∀ i ∈ read, ∀ kind, Sourced tokens kind i :=
    .bind fun _ => .untilEnd (sourced_rules _).item
  exact ⟨tokens, found, fun i member => told _ _ _ ⟨[], .top⟩ read i member .module⟩

end Grammar

end MacroExpansion
