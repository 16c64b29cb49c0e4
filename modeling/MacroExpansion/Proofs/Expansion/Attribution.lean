import MacroExpansion.Proofs.Expansion.Events

/-!
# What an expansion takes from where its invocation stands

The name and the text of an invocation decide what it expands to. Its location is told to the
results and its context places them, once everything else has gone well; neither is asked before.
Main statement: the result of an expansion is that of the same invocation without a place, put in
its place.
-/
namespace MacroExpansion

/-- The same element, expanded from an invocation at a location. -/
def Element.attributed (invocation : Span) (e : Element) : Element :=
  { e with span := Span.within (some invocation) e.span.place }

/-- The same element, expanded from an invocation at a location, in a scope. -/
def BoundElement.placed (invocation : Span) (scope : ScopeId) (e : BoundElement) : BoundElement :=
  { e with span := Span.within (some invocation) e.span.place, context := scope }

/-- The invocation of the same name and text at no location, in the first scope. -/
def MacroInvocation.unplaced (invocation : MacroInvocation) : MacroInvocation :=
  ⟨invocation.name, invocation.source, .fake, .module ⟨0⟩⟩

/-- An expansion as it is for an invocation at a location in a context, if that names a scope. -/
def Expansion.placed (invocation : Span) (context : InvocationContext) (e : Expansion) :
    Attempt ExpandError Expansion :=
  match context.scope? with
  | none => Attempt.fail .contextBindFailed
  | some scope => .ok { e with results := e.results.map (BoundElement.placed invocation scope) }

/-! ## Elements of generated text -/

namespace ScratchUnit

theorem element?_attributed (u : ScratchUnit) (before invocation : Span) (i : Item) :
    u.element? (some invocation) i =
      (u.element? (some before) i).map (Element.attributed invocation) := by
  unfold element?
  cases i.describe with
  | none => rfl
  | some description => cases u.textOf? i.head <;> rfl

/-- The location of the invocation is told to each element and changes nothing else. -/
theorem elements_attributed (u : ScratchUnit) (before invocation : Span) :
    u.elements (some invocation) =
      (u.elements (some before)).map (Element.attributed invocation) := by
  unfold elements
  rw [List.map_filterMap]
  congr 1
  funext i
  exact u.element?_attributed before invocation i

theorem quiet_parse (fileName : String) (text : List Char) : (parse fileName text).Quiet :=
  (Eventful.quiet_report rfl).bind fun _ =>
    (Eventful.quiet_ofAttempt _).bind fun _ => Eventful.quiet_pure _

end ScratchUnit

/-! ## Steps that read the location -/

/-- The elements of generated text, of which there has to be one. -/
def someElements (invocation : Span) (u : ScratchUnit) : Attempt ExpandError (List Element) :=
  match u.elements (some invocation) with
  | [] => Attempt.fail .noResolvableElements
  | elements => .ok elements

theorem resynthesize_eq (text : List Char) (invocation : Span) :
    resynthesize text invocation =
      ((ScratchUnit.parse ScratchUnit.expansionFile text).mapError ExpandError.resynthesisFailed >>=
        fun u => Eventful.ofAttempt (someElements invocation u)) := by
  unfold resynthesize someElements
  congr 1
  funext u
  cases u.elements (some invocation) <;> rfl

theorem someElements_attributed (before invocation : Span) (u : ScratchUnit) :
    someElements invocation u =
      (someElements before u).map (List.map (Element.attributed invocation)) := by
  unfold someElements
  rw [u.elements_attributed before invocation]
  cases u.elements (some before) <;> rfl

theorem quiet_resynthesize (text : List Char) (invocation : Span) :
    (resynthesize text invocation).Quiet := by
  rw [resynthesize_eq]
  exact ((ScratchUnit.quiet_parse _ text).mapError _).bind fun _ => Eventful.quiet_ofAttempt _

theorem result_resynthesize_eq (text : List Char) (invocation : Span) :
    (resynthesize text invocation).result =
      (Eventful.mapError ExpandError.resynthesisFailed
        (ScratchUnit.parse ScratchUnit.expansionFile text)).result >>= someElements invocation := by
  rw [resynthesize_eq]
  exact ((ScratchUnit.quiet_parse _ text).mapError _).result_bind fun _ =>
    Eventful.quiet_ofAttempt _

/-- Generated text has the same elements for every location, but for the location told to them. -/
theorem result_resynthesize (text : List Char) (before invocation : Span) :
    (resynthesize text invocation).result =
      (resynthesize text before).result.map (List.map (Element.attributed invocation)) := by
  rw [result_resynthesize_eq, result_resynthesize_eq,
    funext (someElements_attributed before invocation)]
  cases (Eventful.mapError ExpandError.resynthesisFailed
    (ScratchUnit.parse ScratchUnit.expansionFile text)).result <;> rfl

theorem ne_nil_of_resynthesize {text : List Char} {invocation : Span} {elements : List Element}
    (given : (resynthesize text invocation).result = .ok elements) : elements ≠ [] := by
  rw [result_resynthesize_eq] at given
  cases read : (Eventful.mapError ExpandError.resynthesisFailed
      (ScratchUnit.parse ScratchUnit.expansionFile text)).result with
  | error cause =>
    rw [read] at given
    cases given
  | ok u =>
    rw [read] at given
    change someElements invocation u = .ok elements at given
    unfold someElements at given
    split at given
    · cases given
    next filled =>
      cases given
      exact fun empty => filled empty

namespace LazyStatic

/-- The text of the declaration that the text of an invocation holds. -/
def declared (source : String) : Attempt ExpandError (List Char) :=
  (do declaration (← argumentText source.toList)).mapError ExpandError.builtinFailed

/-- The unit that the text of a declaration is. -/
def parsed (text : List Char) : Eventful ExpandError ScratchUnit :=
  (ScratchUnit.parse ScratchUnit.lazyStaticFile text).mapError fun cause =>
    ExpandError.builtinFailed (.reparse cause)

/-- The first element of a unit. -/
def first (invocation : Span) (u : ScratchUnit) : Attempt ExpandError Element :=
  Attempt.ofOption .noResolvableElements (u.elements (some invocation)).head?

theorem element_eq (invocation : MacroInvocation) :
    element invocation = (Eventful.ofAttempt (declared invocation.source) >>= fun text =>
      parsed text >>= fun u => Eventful.ofAttempt (first invocation.span u)) := by
  unfold element declared parsed first
  congr 1
  funext text
  congr 1
  funext u
  cases u.elements (some invocation.span) <;> rfl

theorem first_attributed (before invocation : Span) (u : ScratchUnit) :
    first invocation u = (first before u).map (Element.attributed invocation) := by
  unfold first
  rw [u.elements_attributed before invocation]
  cases u.elements (some before) <;> rfl

theorem quiet_parsed (text : List Char) : (parsed text).Quiet :=
  (ScratchUnit.quiet_parse _ text).mapError _

theorem quiet_element (invocation : MacroInvocation) : (element invocation).Quiet := by
  rw [element_eq]
  exact (Eventful.quiet_ofAttempt _).bind fun text =>
    (quiet_parsed text).bind fun _ => Eventful.quiet_ofAttempt _

theorem result_element_eq (invocation : MacroInvocation) :
    (element invocation).result = declared invocation.source >>= fun text =>
      (parsed text).result >>= first invocation.span := by
  rw [element_eq, (Eventful.quiet_ofAttempt _).result_bind fun text =>
    (quiet_parsed text).bind fun _ => Eventful.quiet_ofAttempt _]
  congr 1
  funext text
  exact (quiet_parsed text).result_bind fun _ => Eventful.quiet_ofAttempt _

/-- The declared static is the same for every location, but for the location told to it. -/
theorem result_element (invocation : MacroInvocation) :
    (element invocation).result =
      (element invocation.unplaced).result.map (Element.attributed invocation.span) := by
  rw [result_element_eq, result_element_eq, funext (first_attributed Span.fake invocation.span)]
  change declared invocation.source >>= _ = Except.map _ (declared invocation.source >>= _)
  cases declared invocation.source with
  | error cause => rfl
  | ok text =>
    change (parsed text).result >>= _ = Except.map _ ((parsed text).result >>= _)
    cases (parsed text).result <;> rfl

end LazyStatic

/-! ## Placing -/

theorem bindAll_of_scope {context : InvocationContext} {scope : ScopeId}
    (named : context.scope? = some scope) (elements : List Element) :
    bindAll elements context = .ok (elements.map fun e => { e with context := scope }) := by
  have placed : (elements.mapM fun e => e.bind? context) =
      some (elements.map fun e => { e with context := scope }) := by
    induction elements with
    | nil => rfl
    | cons e rest ih =>
      have first : e.bind? context = some { e with context := scope } := by
        rw [Element.bind?, named]
        rfl
      rw [List.mapM_cons, first, ih]
      rfl
  rw [bindAll, placed]
  rfl

theorem bindAll_of_no_scope {context : InvocationContext} (unscoped : context.scope? = none)
    {elements : List Element} (nonempty : elements ≠ []) :
    bindAll elements context = Attempt.fail .contextBindFailed := by
  cases elements with
  | nil => exact absurd rfl nonempty
  | cons e rest =>
    have first : e.bind? context = none := by rw [Element.bind?, unscoped]; rfl
    rw [bindAll, List.mapM_cons, first]
    rfl

/-- Placing elements where an invocation stands is putting them into place from anywhere. -/
theorem bindAll_placed (origin : ExpansionOrigin) {elements : List Element}
    (nonempty : elements ≠ [])
    (invocation : Span) (context : InvocationContext) :
    (bindAll (elements.map (Element.attributed invocation)) context).map (Expansion.mk origin) =
      (bindAll elements (.module ⟨0⟩)).map (Expansion.mk origin) >>=
        Expansion.placed invocation context := by
  have mapped : elements.map (Element.attributed invocation) ≠ [] := by simpa using nonempty
  have home : bindAll elements (.module ⟨0⟩) =
      .ok (elements.map fun e => { e with context := ⟨0⟩ }) := bindAll_of_scope rfl elements
  rw [home]
  change _ = Expansion.placed invocation context _
  unfold Expansion.placed
  cases named : context.scope? with
  | none => rw [bindAll_of_no_scope named mapped]; rfl
  | some scope =>
    rw [bindAll_of_scope named]
    simp [Except.map, BoundElement.placed, Element.attributed]

/-! ## Whole expansions -/

/-- The text that the copies of a definition's template make for an invocation. -/
def pasted (definition : MacroDefinition) (invocation : MacroInvocation) :
    Eventful ExpandError (List Char) := do
  let shape ← Eventful.ofAttempt (shapeOf definition)
  let fragments ← argumentsOf invocation
  let template ← Eventful.ofAttempt
    (Attempt.ofOption .templateExtractFailed (extractTemplate definition.source.toList shape))
  Eventful.ofAttempt (if fragments.isEmpty then Attempt.fail .instantiationEmpty
    else .ok (Template.instantiate template shape.binding (fragments.map ArgumentFragment.text)))

theorem expandWith_eq (definition : MacroDefinition) (invocation : MacroInvocation) :
    expandWith definition invocation = (pasted definition invocation >>= fun text =>
      resynthesize text invocation.span >>= fun elements =>
        Eventful.ofAttempt (bindAll elements invocation.context)) := by
  unfold expandWith pasted
  simp only [bind_assoc]
  congr 1
  funext shape
  congr 1
  funext fragments
  congr 1
  funext template
  cases fragments <;> rfl

theorem quiet_argumentsOf (invocation : MacroInvocation) : (argumentsOf invocation).Quiet := by
  refine Eventful.Quiet.mapError ?_ _
  exact (Eventful.quiet_ofAttempt _).bind fun text =>
    ((ScratchUnit.quiet_parse _ text).mapError _).bind fun _ => Eventful.quiet_pure _

theorem quiet_pasted (definition : MacroDefinition) (invocation : MacroInvocation) :
    (pasted definition invocation).Quiet :=
  (Eventful.quiet_ofAttempt _).bind fun _ =>
    (quiet_argumentsOf invocation).bind fun _ =>
      (Eventful.quiet_ofAttempt _).bind fun _ => Eventful.quiet_ofAttempt _

theorem quiet_expandWith (definition : MacroDefinition) (invocation : MacroInvocation) :
    (expandWith definition invocation).Quiet := by
  rw [expandWith_eq]
  exact (quiet_pasted definition invocation).bind fun text =>
    (quiet_resynthesize text invocation.span).bind fun _ => Eventful.quiet_ofAttempt _

theorem result_expandWith_eq (definition : MacroDefinition) (invocation : MacroInvocation) :
    (expandWith definition invocation).result =
      (pasted definition invocation).result >>= fun text =>
        (resynthesize text invocation.span).result >>= fun elements =>
          bindAll elements invocation.context := by
  rw [expandWith_eq, (quiet_pasted definition invocation).result_bind fun text =>
    (quiet_resynthesize text invocation.span).bind fun _ => Eventful.quiet_ofAttempt _]
  congr 1
  funext text
  exact (quiet_resynthesize text invocation.span).result_bind fun _ => Eventful.quiet_ofAttempt _

/-- An expansion by a definition is the one without a place, put in the place of the invocation. -/
theorem result_expandWith (definition : MacroDefinition) (invocation : MacroInvocation) :
    (expandWith definition invocation).result.map (Expansion.mk .definition) =
      (expandWith definition invocation.unplaced).result.map (Expansion.mk .definition) >>=
        Expansion.placed invocation.span invocation.context := by
  rw [result_expandWith_eq, result_expandWith_eq]
  change Except.map _ ((pasted definition invocation).result >>= _) =
    Except.map _ ((pasted definition invocation).result >>= _) >>= _
  cases (pasted definition invocation).result with
  | error cause => rfl
  | ok text =>
    change Except.map _ ((resynthesize text invocation.span).result >>= _) =
      Except.map _ ((resynthesize text Span.fake).result >>= _) >>= _
    rw [result_resynthesize text Span.fake invocation.span]
    cases found : (resynthesize text Span.fake).result with
    | error cause => rfl
    | ok elements =>
      exact bindAll_placed .definition (ne_nil_of_resynthesize found) invocation.span
        invocation.context

/-! ## The two ways to expand -/

/-- Expands an invocation by the definition that was found for it. -/
def expandBy (found : Option MacroDefinition) (invocation : MacroInvocation) :
    Eventful ExpandError Expansion :=
  match found with
  | none => Eventful.fail (.unresolved invocation.name)
  | some definition =>
    Eventful.report (.expanding invocation definition) >>= fun _ =>
      expandWith definition invocation >>= fun results => pure ⟨.definition, results⟩

/-- Expands an invocation as the declaration of a static. -/
def expandStatic (invocation : MacroInvocation) : Eventful ExpandError Expansion :=
  Eventful.report (.expandingBuiltin invocation.name) >>= fun _ =>
    LazyStatic.element invocation >>= fun element =>
      Eventful.ofAttempt ((bindAll [element] invocation.context).map (Expansion.mk .builtin))

theorem expandMacro_of_static {invocation : MacroInvocation}
    (named : invocation.name = LazyStatic.invocationName)
    (lookup : Ident → Option MacroDefinition) :
    expandMacro lookup invocation = expandStatic invocation := by
  unfold expandMacro expandBuiltin? expandStatic
  rw [if_pos named]
  simp only [bind_assoc]
  congr 1
  funext _
  congr 1
  funext element
  cases bindAll [element] invocation.context <;> rfl

theorem expandMacro_of_definition {invocation : MacroInvocation}
    (other : invocation.name ≠ LazyStatic.invocationName)
    (lookup : Ident → Option MacroDefinition) :
    expandMacro lookup invocation = (Eventful.report (.lookup invocation.name) >>= fun _ =>
      expandBy (lookup invocation.name) invocation) := by
  have needed : expandBuiltin? invocation = none := if_neg other
  unfold expandMacro expandBy
  generalize expandBuiltin? invocation = builtin at needed
  subst needed
  rfl

theorem quiet_expandBy (found : Option MacroDefinition) (invocation : MacroInvocation) :
    (expandBy found invocation).Quiet := by
  cases found with
  | none => exact Eventful.quiet_ofAttempt _
  | some definition =>
    exact (Eventful.quiet_report rfl).bind fun _ =>
      (quiet_expandWith definition invocation).bind fun _ => Eventful.quiet_pure _

theorem quiet_expandStatic (invocation : MacroInvocation) : (expandStatic invocation).Quiet :=
  (Eventful.quiet_report rfl).bind fun _ =>
    (LazyStatic.quiet_element invocation).bind fun _ => Eventful.quiet_ofAttempt _

theorem result_expandBy (definition : MacroDefinition) (invocation : MacroInvocation) :
    (expandBy (some definition) invocation).result =
      (expandWith definition invocation).result.map (Expansion.mk .definition) := by
  have placed := quiet_expandWith definition invocation
  rw [expandBy, (Eventful.quiet_report rfl).result_bind fun _ =>
    placed.bind fun _ => Eventful.quiet_pure _]
  change Eventful.result (_ >>= _) = _
  rw [placed.result_bind fun _ => Eventful.quiet_pure _]
  cases (expandWith definition invocation).result <;> rfl

theorem result_expandStatic (invocation : MacroInvocation) :
    (expandStatic invocation).result = (LazyStatic.element invocation).result >>= fun element =>
      (bindAll [element] invocation.context).map (Expansion.mk .builtin) := by
  have element := LazyStatic.quiet_element invocation
  rw [expandStatic, (Eventful.quiet_report rfl).result_bind fun _ =>
    element.bind fun _ => Eventful.quiet_ofAttempt _]
  exact element.result_bind fun _ => Eventful.quiet_ofAttempt _

theorem result_expandMacro_of_definition {invocation : MacroInvocation}
    (other : invocation.name ≠ LazyStatic.invocationName)
    (lookup : Ident → Option MacroDefinition) :
    (expandMacro lookup invocation).result =
      (expandBy (lookup invocation.name) invocation).result := by
  rw [expandMacro_of_definition other]
  exact (Eventful.additive_report _).result_bind fun _ => (quiet_expandBy _ invocation).additive

/-! ## Putting an expansion in its place -/

/-- An expansion is that of the same invocation without a place, put in its place. -/
theorem result_expandMacro (lookup : Ident → Option MacroDefinition)
    (invocation : MacroInvocation) :
    (expandMacro lookup invocation).result =
      (expandMacro lookup invocation.unplaced).result >>=
        Expansion.placed invocation.span invocation.context := by
  by_cases named : invocation.name = LazyStatic.invocationName
  · have unplaced : invocation.unplaced.name = LazyStatic.invocationName := named
    rw [expandMacro_of_static named, expandMacro_of_static unplaced, result_expandStatic,
      result_expandStatic, LazyStatic.result_element]
    cases (LazyStatic.element invocation.unplaced).result with
    | error cause => rfl
    | ok element =>
      exact bindAll_placed .builtin (List.cons_ne_nil element []) invocation.span
        invocation.context
  · have unplaced : invocation.unplaced.name ≠ LazyStatic.invocationName := named
    rw [result_expandMacro_of_definition named, result_expandMacro_of_definition unplaced]
    change (expandBy (lookup invocation.name) invocation).result =
      (expandBy (lookup invocation.name) invocation.unplaced).result >>= _
    cases lookup invocation.name with
    | none => rfl
    | some definition =>
      rw [result_expandBy, result_expandBy]
      exact result_expandWith definition invocation

end MacroExpansion
