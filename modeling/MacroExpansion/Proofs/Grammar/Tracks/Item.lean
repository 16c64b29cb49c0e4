import MacroExpansion.Proofs.Grammar.Closes
import MacroExpansion.Proofs.Grammar.Tracks.Member

/-!
# Items

Every item is read to the braces or the semicolon that it ends with. In another place it is the same
kind of item with the same name and attributes.
-/
namespace MacroExpansion.Grammar

/-! ## Questions that are asked -/

instance (look : Look) [Placeless look] : Needs (Look.inside .paren look) 2 :=
  needs_of_aboutFirst fun t yes ends => by
    cases t with
    | group d content extent =>
      obtain ⟨rfl, _⟩ : d = .paren ∧ look content = true := by simpa [Look.inside] using yes
      exact ends
    | _ => cases yes

instance : Placeless parametersAhead := by
  unfold parametersAhead
  infer_instance

instance {n : Nat} : Decided (n + 1) parametersAhead := by
  unfold parametersAhead
  infer_instance

/-! ## What an item is -/

instance : Timid pubScope? := by
  unfold pubScope?
  infer_instance

instance : Timid visibility? := by
  unfold visibility?
  infer_instance

instance : Timid nameOrUnderscore := by
  unfold nameOrUnderscore
  infer_instance

instance : Timid signatureAhead := by
  unfold signatureAhead
  infer_instance

instance : Timid unsafeForm := by
  unfold unsafeForm
  infer_instance

instance : Timid externForm := by
  have given (shape : Option LiteralShape) : Timid (do
      if let some .text := shape then
        if ← peek (.group .brace) then return .foreignBlock
      refuse : Parser ItemForm) := by
    split <;> infer_instance
  unfold externForm
  infer_instance

namespace Tracks

variable {fit : List TokenTree → Prop} {free : Bool} [Sound fit]

instance externForm : Tracks fit free Eq externForm externForm := by
  have given (shape : Option LiteralShape) : Tracks fit free Eq
      (do
        if let some .text := shape then
          if ← Grammar.peek (.group .brace) then return .foreignBlock
        Grammar.refuse : Parser ItemForm)
      (do
        if let some .text := shape then
          if ← Grammar.peek (.group .brace) then return .foreignBlock
        Grammar.refuse) := by
    split <;> infer_instance
  unfold Grammar.externForm
  infer_instance

instance unsafeForm : Tracks fit free Eq unsafeForm unsafeForm := by
  unfold Grammar.unsafeForm
  infer_instance

instance itemForm : Tracks fit free Eq itemForm itemForm := by
  unfold Grammar.itemForm
  refine preview (.seq fun visible => ?_) (seq fun visible => ?_)
  · refine .ask inferInstance <| .ask inferInstance <| .ask inferInstance <| .ask inferInstance ?_
    refine .ask inferInstance <| .ask inferInstance <| .ask inferInstance <| .ask inferInstance ?_
    infer_instance
  · refine ask inferInstance <| ask inferInstance <| ask inferInstance <| ask inferInstance ?_
    refine ask inferInstance <| ask inferInstance <| ask inferInstance <| ask inferInstance ?_
    infer_instance

instance useTree {r r' : Rules} [Rules.Tracked fit r r'] :
    Tracks fit free Eq (useTree r) (useTree r') := by
  unfold Grammar.useTree
  infer_instance

instance implementedTypes {r r' : Rules} [Rules.Tracked fit r r'] :
    Tracks fit free Eq (implementedTypes r) (implementedTypes r') := by
  have given (first : TypeShape) : Tracks fit free Eq
      (do
        match first with
        | .path false _ => return true
        | _ => return false)
      (do
        match first with
        | .path false _ => return true
        | _ => return false) := by
    split <;> infer_instance
  unfold Grammar.implementedTypes
  infer_instance

end Tracks

/-! ## Items without their heads -/

/-- The same kind of item, with the same name and attributes. -/
structure AlikeBodies (x y : ItemBody) : Prop where
  attributes : y.attributes = x.attributes
  describe : ∀ head, (y.build head).describe = (x.build head).describe

instance : Std.Refl AlikeBodies where
  refl _ := ⟨rfl, fun _ => rfl⟩

namespace Closes

variable {fit : List TokenTree → Prop} [Sound fit] {r r' : Rules} [tracked : Rules.Tracked fit r r']

instance typedValue? : Closes fit Eq (typedValue? r) (typedValue? r') := by
  unfold Grammar.typedValue?
  infer_instance

instance aliasItem (place : WherePlace) :
    Closes fit Eq (aliasItem r place) (aliasItem r' place) := by
  unfold Grammar.aliasItem
  refine seq fun _ => seq fun spelling => seq fun _ => seq fun bounded => ?_
  infer_instance

instance attributedBlock : Closes fit (OnFirst Eq) (attributedBlock r) (attributedBlock r') := by
  have content (attributes : List String) : Tracks fit false (OnFirst Eq)
      (do return (attributes, ← r.statements)) (do return (attributes, ← r'.statements)) :=
    (tracked.statements).bind fun _ _ _ => Tracks.pure_of rfl
  unfold Grammar.attributedBlock
  infer_instance

instance functionItem : Closes fit AlikeBodies (functionItem r) (functionItem r') := by
  have body (spelling : String) : Closes fit AlikeBodies
      (do
        let (attributes, body) ← Grammar.attributedBlock r
        return ⟨attributes, fun head => .function head spelling body⟩)
      (do
        let (attributes, body) ← Grammar.attributedBlock r'
        return ⟨attributes, fun head => .function head spelling body⟩) :=
    attributedBlock.followed fun _ _ same => .pure_of ⟨same.symm, fun _ => rfl⟩
  unfold Grammar.functionItem
  infer_instance

instance externCrateItem : Closes fit AlikeBodies externCrateItem externCrateItem := by
  unfold Grammar.externCrateItem
  refine seq fun _ => seq fun _ => seq fun _ => seq fun self => ?_
  infer_instance

instance foreignBlockItem : Closes fit AlikeBodies (foreignBlockItem r) (foreignBlockItem r') := by
  unfold Grammar.foreignBlockItem
  infer_instance

instance useItem : Closes fit AlikeBodies (useItem r) (useItem r') := by
  unfold Grammar.useItem
  infer_instance

instance staticItem : Closes fit AlikeBodies (staticItem r) (staticItem r') := by
  unfold Grammar.staticItem
  infer_instance

instance constItem : Closes fit AlikeBodies (constItem r) (constItem r') := by
  unfold Grammar.constItem
  infer_instance

instance moduleItem : Closes fit AlikeBodies (moduleItem r) (moduleItem r') := by
  have content : Tracks fit false (OnFirst Eq)
      (do
        let attributes ← Grammar.innerAttributes
        return (attributes, ← untilEnd r.item))
      (do
        let attributes ← Grammar.innerAttributes
        return (attributes, ← untilEnd r'.item)) :=
    Tracks.seq fun _ => (Tracks.untilEndAny : Tracks fit false Any _ _).bind
      fun _ _ _ => Tracks.pure_of rfl
  have body (spelling : String) : Closes fit AlikeBodies
      (do
        let (attributes, items) ← delimited .brace do
          let attributes ← Grammar.innerAttributes
          return (attributes, ← untilEnd r.item)
        return ⟨attributes, fun head => .module head spelling items⟩)
      (do
        let (attributes, items) ← delimited .brace do
          let attributes ← Grammar.innerAttributes
          return (attributes, ← untilEnd r'.item)
        return ⟨attributes, fun head => .module head spelling items⟩) :=
    (braces : Closes fit (OnFirst Eq) _ _).followed fun _ _ same =>
      .pure_of ⟨same.symm, fun _ => rfl⟩
  unfold Grammar.moduleItem
  infer_instance

instance typeAliasItem : Closes fit AlikeBodies (typeAliasItem r) (typeAliasItem r') := by
  unfold Grammar.typeAliasItem
  infer_instance

theorem unsafeItem {item item' : Parser ItemBody} (h : Closes fit AlikeBodies item item') :
    Closes fit AlikeBodies (unsafeItem item) (unsafeItem item') := by
  have rest : Closes fit AlikeBodies (do let _ ← item; return .raw)
      (do let _ ← item'; return .raw) :=
    h.followed fun _ _ _ => .pure _
  unfold Grammar.unsafeItem
  infer_instance

instance namedFields : Closes fit Eq (namedFields r) (namedFields r') := by
  unfold Grammar.namedFields
  infer_instance

instance structBody : Closes fit Eq (structBody r) (structBody r') := by
  unfold Grammar.structBody
  infer_instance

instance enumBody : Closes fit Eq (enumBody r) (enumBody r') := by
  unfold Grammar.enumBody
  infer_instance

instance unionBody : Closes fit Eq (unionBody r) (unionBody r') := by
  unfold Grammar.unionBody
  infer_instance

theorem dataItem {body : Rules → Parser Unit} (h : Closes fit Eq (body r) (body r'))
    (word : String) (kind : ElementKind) :
    Closes fit AlikeBodies (dataItem r word kind body) (dataItem r' word kind body) := by
  unfold Grammar.dataItem
  infer_instance

instance traitBody : Closes fit Eq (traitBody r) (traitBody r') := by
  unfold Grammar.traitBody
  infer_instance

instance traitAliasBody : Closes fit Eq (traitAliasBody r) (traitAliasBody r') := by
  unfold Grammar.traitAliasBody
  infer_instance

instance traitItem : Closes fit AlikeBodies (traitItem r) (traitItem r') := by
  unfold Grammar.traitItem
  infer_instance

instance implementationItem :
    Closes fit AlikeBodies (implementationItem r) (implementationItem r') := by
  have content : Tracks fit false (OnFirst Eq)
      (do
        let attributes ← Grammar.innerAttributes
        return (attributes, ← untilEnd (Grammar.implementationMember r)))
      (do
        let attributes ← Grammar.innerAttributes
        return (attributes, ← untilEnd (Grammar.implementationMember r'))) :=
    Tracks.seq fun _ => (Tracks.untilEndAny : Tracks fit false Any _ _).bind
      fun _ _ _ => Tracks.pure_of rfl
  have members (raw : Bool) : Closes fit AlikeBodies
      (do
        let (attributes, members) ← delimited .brace do
          let attributes ← Grammar.innerAttributes
          return (attributes, ← untilEnd (Grammar.implementationMember r))
        if raw then return .raw
        return ⟨attributes, fun head => .implementation head (members.filterMap id)⟩)
      (do
        let (attributes, members) ← delimited .brace do
          let attributes ← Grammar.innerAttributes
          return (attributes, ← untilEnd (Grammar.implementationMember r'))
        if raw then return .raw
        return ⟨attributes, fun head => .implementation head (members.filterMap id)⟩) := by
    refine (braces : Closes fit (OnFirst Eq) _ _).followed fun (attributes, members) y same => ?_
    dsimp only
    split
    · exact .pure _
    · exact .pure_of ⟨same.symm, fun _ => rfl⟩
  unfold Grammar.implementationItem
  refine seq fun visible => seq fun _ => seq fun _ => seq fun _ => ?_
  infer_instance

instance rulesItem : Closes fit AlikeBodies rulesItem rulesItem := by
  unfold Grammar.rulesItem
  infer_instance

/-- The group of a call in place of an item, and the semicolon that it may need. -/
theorem groupOf (spelling : Option String) (path : MacroPath) (start start' : Position) :
    Closes fit Tracks.AlikeNamed
      (do
        let (delimiter, body, group) ← anyGroup
        let named : NamedCall := ⟨spelling, path, delimiter, body, group, ⟨start, group.stop⟩⟩
        if named.call.needsSemicolon then symbol ";"
        return named)
      (do
        let (delimiter, body, group) ← anyGroup
        let named : NamedCall := ⟨spelling, path, delimiter, body, group, ⟨start', group.stop⟩⟩
        if named.call.needsSemicolon then symbol ";"
        return named) := by
  refine group (fun x y alike brace => ?_) fun x y alike other => ?_
  · have braced : (x.1 != .brace) = false := by rw [brace]; rfl
    have braced' : (y.1 != .brace) = false := by rw [alike.1, brace]; rfl
    simp only [MacroCall.needsSemicolon, braced, braced', Bool.false_eq_true, ↓reduceIte]
    exact .pure_of ⟨rfl, rfl, alike.1⟩
  · have unbraced : (x.1 != .brace) = true := by simpa using other
    have unbraced' : (y.1 != .brace) = true := by rw [alike.1]; exact unbraced
    simp only [MacroCall.needsSemicolon, unbraced, unbraced', ↓reduceIte]
    exact semicolon.followed fun _ _ _ => .pure_of ⟨rfl, rfl, alike.1⟩

theorem callItem : Closes fit Tracks.AlikeNamed callItem callItem := by
  unfold Grammar.callItem Grammar.namedCall
  simp only [bind_assoc]
  refine after Tracks.here fun _ _ _ => ?_
  refine after (Tracks.plainPath) fun path _ same => ?_
  subst same
  refine after (Tracks.symbol "!") fun _ _ _ => ?_
  refine after (Tracks.peek Look.name) fun seen _ same => ?_
  subst same
  cases seen with
  | true =>
    simp only [↓reduceIte, bind_assoc]
    refine after (Tracks.map some) fun spelling _ same => ?_
    subst same
    exact groupOf spelling path _ _
  | false =>
    simp only [Bool.false_eq_true, ↓reduceIte, bind_assoc, pure_bind]
    exact groupOf none path _ _

theorem describe_itemOfCall {call call' : MacroCall} (alike : Tracks.AlikeCalls call call')
    (head : ItemHead) (spelling : Option String) :
    (itemOfCall head call' spelling).describe = (itemOfCall head call spelling).describe := by
  unfold itemOfCall
  rw [alike.path]
  split <;> rfl

instance itemBody : Closes fit AlikeBodies (itemBody r) (itemBody r') := by
  refine after Tracks.itemForm fun form _ same => ?_
  subst same
  cases form with
  | unsafeForeignBlock => exact unsafeItem foreignBlockItem
  | unsafeModule => exact unsafeItem moduleItem
  | struct => exact dataItem structBody _ _
  | enum => exact dataItem enumBody _ _
  | union => exact dataItem unionBody _ _
  | call =>
    refine callItem.followed fun named named' alike => .pure_of ⟨rfl, fun head => ?_⟩
    rw [alike.name]
    exact describe_itemOfCall alike.call head named.name
  | visibleRules => exact after Tracks.visibility? fun _ _ _ =>
      callItem.followed fun _ _ _ => .pure _
  | _ => dsimp only; infer_instance

end Closes

/-! ## Items with their heads -/

/-- What an item is told to be does not hang on its head, which is kept unless it is raw. -/
def ItemBody.Plain (body : ItemBody) : Prop :=
  ∃ description : Option Item.Description, ∀ head, (body.build head).describe = description ∧
    (description.isSome → (body.build head).head = head) ∧
    (body.build head).head.extent = head.extent

theorem ItemBody.plain_raw : ItemBody.Plain .raw :=
  ⟨none, fun _ => ⟨rfl, nofun, rfl⟩⟩

theorem plain_itemOfCall (attributes : List String) (call : MacroCall) (spelling : Option String) :
    ItemBody.Plain ⟨attributes, fun head => itemOfCall head call spelling⟩ := by
  unfold itemOfCall
  split
  · cases spelling with
    | some spelling => exact ⟨some _, fun _ => ⟨rfl, fun _ => rfl, rfl⟩⟩
    | none => exact ⟨some _, fun _ => ⟨rfl, fun _ => rfl, rfl⟩⟩
  · exact ⟨some _, fun _ => ⟨rfl, fun _ => rfl, rfl⟩⟩

theorem plain_itemBody (r : Rules) : Ensures (itemBody r) ItemBody.Plain := by
  refine .bind fun form => ?_
  cases form with
  | call => exact .bind fun _ => .pure (plain_itemOfCall _ _ _)
  | _ =>
    -- every way through another form ends in an item of one kind, or a raw one
    simp only [functionItem, externCrateItem, foreignBlockItem, useItem, staticItem, constItem,
      moduleItem, unsafeItem, typeAliasItem, dataItem, traitItem, implementationItem, rulesItem]
    repeat' first
      | with_reducible refine Ensures.bind fun _ => ?_
      | with_reducible exact Ensures.refuse
      | split
      | exact Ensures.pure ItemBody.plain_raw
      | exact Ensures.pure ⟨some _, fun _ => ⟨rfl, fun _ => rfl, rfl⟩⟩

/-- The same kind of item, with the same name and attributes; nothing is told of raw items. -/
structure AlikeItems (x y : Item) : Prop where
  describe : y.describe = x.describe
  attributes : x.describe.isSome → y.head.attributes = x.head.attributes
  displaced : x.describe.isSome → y.head.displaced = x.head.displaced

instance : Std.Refl AlikeItems where
  refl _ := ⟨rfl, fun _ => rfl, fun _ => rfl⟩

theorem AlikeBodies.build {x y : ItemBody} (alike : AlikeBodies x y) (plain : x.Plain)
    (plain' : y.Plain) (attributes : List String) (extent extent' : Extent) (displaced : Bool) :
    AlikeItems (x.build ⟨attributes ++ x.attributes, extent, displaced⟩)
      (y.build ⟨attributes ++ y.attributes, extent', displaced⟩) := by
  obtain ⟨description, same⟩ := plain
  obtain ⟨description', same'⟩ := plain'
  obtain rfl : description' = description :=
    (same' ⟨[], extent, displaced⟩).1.symm.trans
      ((alike.describe _).trans (same ⟨[], extent, displaced⟩).1)
  refine ⟨(same' _).1.trans (same _).1.symm, fun described => ?_, fun described => ?_⟩
  all_goals
    rw [(same _).1] at described
    rw [(same _).2.1 described, (same' _).2.1 described]
  rw [alike.attributes]

/-- The attributes of an item and what follows them. -/
def AlikeContents (x y : List String × ItemBody) : Prop :=
  y.1 = x.1 ∧ AlikeBodies x.2 y.2

instance : Std.Refl AlikeContents where
  refl x := ⟨rfl, Std.Refl.refl x.2⟩

/-- An item is read to its end, and is of the same kind in another place. -/
theorem closes_item {fit : List TokenTree → Prop} [Sound fit] (r r' : Rules)
    [Rules.Tracked fit r r'] : Closes fit AlikeItems (item r) (item r') := by
  have content : Closes fit AlikeContents
      (do
        let attributes ← outerAttributes
        return (attributes, ← itemBody r))
      (do
        let attributes ← outerAttributes
        return (attributes, ← itemBody r')) := by
    refine .after Tracks.outerAttributes fun attributes _ same => ?_
    subst same
    exact Closes.itemBody.followed fun _ _ alike => .pure_of ⟨rfl, alike⟩
  have plain (r : Rules) : Ensures
      (do
        let attributes ← outerAttributes
        return (attributes, ← itemBody r)) fun read => read.2.Plain :=
    .bind fun _ => .bind_of (plain_itemBody r) fun _ plain => .pure plain
  have whole := content.placed.ensures (plain r).placed (plain r').placed
  have self : Ensures _ fun x : (List String × ItemBody) × Extent =>
      OnFirst AlikeContents x x ∧ x.1.2.Plain ∧ x.1.2.Plain := fun c x d read =>
    ⟨Std.Refl.refl x, (plain r).placed c x d read, (plain r).placed c x d read⟩
  refine .after (Tracks.note false) fun _ _ _ => whole.followed_of self ?_
  rintro ⟨⟨attributes, body⟩, extent⟩ ⟨⟨_, body'⟩, extent'⟩ ⟨⟨rfl, alike⟩, here, there⟩
  exact .of_noted fun displaced _ _ _ _ => .pure_of (alike.build here there _ _ _ displaced)

end MacroExpansion.Grammar
