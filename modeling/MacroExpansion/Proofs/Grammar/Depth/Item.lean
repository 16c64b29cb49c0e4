import MacroExpansion.Proofs.Grammar.Depth.Expression

/-!
# How deep statements and items nest

Statements use items and expressions before they have read a token. An item uses no rule before
that.
-/
namespace MacroExpansion.Grammar

open TokenTree

namespace Agree

variable {w : Nat} {r r' : Rules} [Rules.Tracked (fun _ => False) r r] [Rules.Agree w r r']

instance otherwise? : Agree w true (otherwise? r) (otherwise? r') := by
  unfold Grammar.otherwise?
  infer_instance

instance declaration : Agree w true (declaration r) (declaration r') := by
  unfold Grammar.declaration
  refine seq fun _ => after fun _ => seq fun _ => ?_
  infer_instance

instance declarationStatement :
    Agree w true (declarationStatement r) (declarationStatement r') := by
  unfold Grammar.declarationStatement
  infer_instance

instance expressionStatement [Agree w true r.early r'.early] :
    Agree w true (expressionStatement r) (expressionStatement r') := by
  unfold Grammar.expressionStatement
  infer_instance

instance statement [Agree w true r.early r'.early] [Agree w true r.item r'.item] :
    Agree w true (statement r) (statement r') := by
  unfold Grammar.statement
  refine seq fun form => ?_
  split <;> infer_instance

instance statements [Agree w true r.early r'.early] [Agree w true r.item r'.item] :
    Agree w true (statements r) (statements r') := by
  have leaves : Leaves (Grammar.statement r) :=
    ⟨(Tracks.statement : Tracks (fun _ => False) false _ _ (Grammar.statement r)).reads⟩
  unfold Grammar.statements
  infer_instance

instance functionArgument : Agree w false (functionArgument r) (functionArgument r') := by
  unfold Grammar.functionArgument
  infer_instance

instance functionArguments : Agree w false (functionArguments r) (functionArguments r') := by
  unfold Grammar.functionArguments
  infer_instance

instance signature : Agree w true (signature r) (signature r') := by
  unfold Grammar.signature
  infer_instance

instance aliasBounds : Agree w false (aliasBounds r) (aliasBounds r') := by
  unfold Grammar.aliasBounds
  infer_instance

instance aliasItem (place : WherePlace) :
    Agree w true (aliasItem r place) (aliasItem r' place) := by
  unfold Grammar.aliasItem
  refine after fun _ => seq fun spelling => seq fun _ => seq fun bounded => ?_
  infer_instance

instance typedValue? : Agree w true (typedValue? r) (typedValue? r') := by
  unfold Grammar.typedValue?
  infer_instance

instance foreignMember : Agree w true (foreignMember r) (foreignMember r') := by
  unfold Grammar.foreignMember
  refine seq fun _ => seq fun visible => ask inferInstance <| ask inferInstance ?_
  infer_instance

instance traitMember : Agree w true (traitMember r) (traitMember r') := by
  unfold Grammar.traitMember
  refine seq fun _ => seq fun visible => seq fun optional => ask inferInstance ?_
  infer_instance

instance implementationMember :
    Agree w true (implementationMember r) (implementationMember r') := by
  unfold Grammar.implementationMember
  refine seq fun _ => seq fun visible => seq fun specializable => ask inferInstance ?_
  infer_instance

instance namedField : Agree w true (namedField r) (namedField r') := by
  unfold Grammar.namedField
  infer_instance

instance namedFields : Agree w true (namedFields r) (namedFields r') := by
  unfold Grammar.namedFields
  infer_instance

instance positionalFields : Agree w true (positionalFields r) (positionalFields r') := by
  unfold Grammar.positionalFields
  infer_instance

instance structBody : Agree w true (structBody r) (structBody r') := by
  unfold Grammar.structBody
  infer_instance

instance variant : Agree w true (variant r) (variant r') := by
  unfold Grammar.variant
  infer_instance

instance enumBody : Agree w true (enumBody r) (enumBody r') := by
  unfold Grammar.enumBody
  infer_instance

instance unionBody : Agree w true (unionBody r) (unionBody r') := by
  unfold Grammar.unionBody
  infer_instance

instance functionItem : Agree w true (functionItem r) (functionItem r') := by
  unfold Grammar.functionItem
  infer_instance

instance foreignBlockItem : Agree w true (foreignBlockItem r) (foreignBlockItem r') := by
  unfold Grammar.foreignBlockItem
  infer_instance

instance dataItem (word : String) (kind : ElementKind) {body : Rules → Parser Unit}
    [Leaves (body r)] [Agree w true (body r) (body r')] :
    Agree w true (dataItem r word kind body) (dataItem r' word kind body) := by
  unfold Grammar.dataItem
  infer_instance

instance unsafeItem {p q : Parser ItemBody} [Leaves p] [Agree w true p q] :
    Agree w true (unsafeItem p) (unsafeItem q) := by
  unfold Grammar.unsafeItem
  infer_instance

instance useTree : Agree w true (useTree r) (useTree r') := by
  unfold Grammar.useTree
  infer_instance

instance useItem : Agree w true (useItem r) (useItem r') := by
  unfold Grammar.useItem
  infer_instance

instance staticItem : Agree w true (staticItem r) (staticItem r') := by
  unfold Grammar.staticItem
  infer_instance

instance constItem : Agree w true (constItem r) (constItem r') := by
  unfold Grammar.constItem
  infer_instance

instance moduleItem : Agree w true (moduleItem r) (moduleItem r') := by
  unfold Grammar.moduleItem
  infer_instance

instance typeAliasItem : Agree w true (typeAliasItem r) (typeAliasItem r') := by
  unfold Grammar.typeAliasItem
  infer_instance

instance traitBody : Agree w true (traitBody r) (traitBody r') := by
  unfold Grammar.traitBody
  refine branch inferInstance ?_
  infer_instance

instance traitAliasBody : Agree w false (traitAliasBody r) (traitAliasBody r') := by
  unfold Grammar.traitAliasBody
  infer_instance

instance traitItem : Agree w true (traitItem r) (traitItem r') := by
  unfold Grammar.traitItem
  dsimp only
  infer_instance

instance implementedTypes : Agree w false (implementedTypes r) (implementedTypes r') := by
  unfold Grammar.implementedTypes
  infer_instance

instance implementationItem : Agree w true (implementationItem r) (implementationItem r') := by
  unfold Grammar.implementationItem
  refine seq fun visible => seq fun _ => seq fun _ => after fun _ => seq fun parameters => ?_
  -- with parameters or without, and with a `const` or without, what follows is the same
  extract_lets rest rest'
  have later (u : Unit) : Agree w false (rest u) (rest' u) := by
    refine seq fun conditional => ?_
    extract_lets types types'
    have same (u : Unit) : Agree w false (types u) (types' u) := by
      refine seq fun understood => ?_
      infer_instance
    clear_value types types'
    infer_instance
  clear_value rest rest'
  infer_instance

instance itemBody : Agree w true (itemBody r) (itemBody r') := by
  unfold Grammar.itemBody
  refine seq fun form => ?_
  split <;> infer_instance

instance item : Agree w true (item r) (item r') := by
  unfold Grammar.item
  infer_instance

end Agree

end MacroExpansion.Grammar
