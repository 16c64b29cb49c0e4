import MacroExpansion.Proofs.Expansion.Units
import MacroExpansion.Proofs.Grammar.Attributes

/-!
# The attributes of elements

What an element of a unit is told to have in front of it is read off its own tokens. Main statement:
the attributes of an element, and of a result of an expansion, are those that the tokens of its item
show, in the order they are written in.
-/
namespace MacroExpansion

open Grammar TokenTree Text

/-- The items of a unit, each with its tokens. They stand one after another behind the inner
attributes of the text, and each item was read of its own. -/
structure ScratchUnit.Rows (u : ScratchUnit) (rows : List (List TokenTree × Item)) : Prop where
  tokens : (ofText? (codeOf u.text)).map behindInner = some (rows.map Prod.fst).flatten
  items : u.items = rows.map Prod.snd
  read : ∀ row ∈ rows, ReadOf row.1 .module row.2

/-- The attributes of an element are those that some tokens show: those in front of them and then,
for some kinds, those at the start of the braces that they end with. -/
structure Element.AttributedBy (e : Element) (tokens : List TokenTree) : Prop where
  written : e.attributes = attributePaths e.kind tokens
  /-- They are just those in front if the braces start with none that count. -/
  outer : e.attributes = outerPaths tokens ↔
    (e.kind.joinsInner = true → innerPaths (inClosingBraces tokens) = [])
  /-- They can be asked for wherever the element is placed. -/
  asked : ∀ scope path, (BoundElement.mk e scope).hasAttribute path = true ↔
    path ∈ attributePaths e.kind tokens

theorem Element.AttributedBy.of_written {e : Element} {tokens : List TokenTree}
    (written : e.attributes = attributePaths e.kind tokens) : e.AttributedBy tokens where
  written := written
  outer := by rw [written, attributePaths_eq_outerPaths_iff]
  asked scope path := by rw [BoundElement.hasAttribute, List.contains_iff_mem, written]

/-- The elements of a unit are those of its rows, and each has the attributes that its tokens
show. -/
theorem ScratchUnit.exists_rows {fileName : String} {text : List Char} {u : ScratchUnit}
    (parsed : (ScratchUnit.parse fileName text).result = .ok u) :
    u.text = text ∧ ∃ rows, u.Rows rows ∧ ∀ row ∈ rows, ∀ invocation e,
      u.element? invocation row.2 = some e → e.AttributedBy row.1 := by
  rw [ScratchUnit.result_parse] at parsed
  obtain ⟨items, read, rfl⟩ := Attempt.of_map_ok parsed
  obtain ⟨root, found, whole⟩ := of_parseText read
  obtain ⟨n, same, -⟩ := rulesFor_succ root
  rw [same] at whole
  obtain ⟨names, c, rows, d, inner, run, rfl, empty⟩ := run_of_file whole
  have nested : Rules.Tracked (fun _ => False) (rules n) (rules n) := tracked_rules (Nat.le_refl n)
  refine ⟨rfl, rows, ⟨?_, rfl, fun (taken, i) member => ?_⟩, fun (taken, i) member _ e told => ?_⟩
  · have behind := run.tokens
    rw [(inner_of_innerAttributes inner).2, empty, List.append_nil] at behind
    rw [found, Option.map_some, behind]
  · obtain ⟨closed, -, _, _, one, took⟩ := run.read_of_mem member
    exact .item one took closed
  · obtain ⟨-, -, _, _, one, took⟩ := run.read_of_mem member
    obtain ⟨description, described, made⟩ := Option.bind_eq_some_iff.mp told
    obtain ⟨_, _, made⟩ := Option.bind_eq_some_iff.mp made
    cases made
    exact .of_written (attributes_of_item one took described)

/-! ## Results of expansions -/

theorem Attempt.of_ofOption {ε α : Type} {cause : ε} {found : Option α} {a : α}
    (h : Attempt.ofOption cause found = .ok a) : found = some a := by
  cases found with
  | none => cases h
  | some b =>
    cases h
    rfl

theorem toElement_of_bindAll {elements : List Element} {context : InvocationContext}
    {bound : List BoundElement} (placed : bindAll elements context = .ok bound) :
    bound.map BoundElement.toElement = elements := by
  cases named : context.scope? with
  | some scope =>
    rw [bindAll_of_scope named] at placed
    cases placed
    rw [List.map_map]
    exact List.map_id elements
  | none =>
    cases elements with
    | nil =>
      cases placed
      rfl
    | cons e rest =>
      rw [bindAll_of_no_scope named (List.cons_ne_nil e rest)] at placed
      cases placed

/-- The results of an expansion are elements of a unit, put into place. -/
theorem results_of_expandMacro {lookup : Ident → Option MacroDefinition}
    {invocation : MacroInvocation} {expansion : Expansion}
    (expanded : (expandMacro lookup invocation).result = .ok expansion) :
    ∃ fileName text u, (ScratchUnit.parse fileName text).result = .ok u ∧
      ∀ b ∈ expansion.results, b.toElement ∈ u.elements (some invocation.span) := by
  by_cases named : invocation.name = LazyStatic.invocationName
  · rw [expandMacro_of_static named, result_expandStatic, LazyStatic.result_element_eq] at expanded
    obtain ⟨e, made, placed⟩ := Attempt.of_bind_ok expanded
    obtain ⟨text, -, made⟩ := Attempt.of_bind_ok made
    obtain ⟨u, parsed, first⟩ := Attempt.of_bind_ok made
    obtain ⟨bound, bounds, rfl⟩ := Attempt.of_map_ok placed
    refine ⟨_, text, u, Attempt.of_mapError_ok parsed, fun b member => ?_⟩
    have among : b.toElement ∈ [e] := by
      rw [← toElement_of_bindAll bounds]
      exact List.mem_map_of_mem member
    rw [List.mem_singleton.mp among]
    exact List.mem_of_mem_head? (Attempt.of_ofOption first)
  · rw [result_expandMacro_of_definition named] at expanded
    cases found : lookup invocation.name with
    | none =>
      rw [found] at expanded
      cases expanded
    | some definition =>
      rw [found, result_expandBy, result_expandWith_eq] at expanded
      obtain ⟨bound, made, rfl⟩ := Attempt.of_map_ok expanded
      obtain ⟨text, -, made⟩ := Attempt.of_bind_ok made
      obtain ⟨elements, given, placed⟩ := Attempt.of_bind_ok made
      obtain ⟨u, whole, rfl⟩ := Resynthesized.of_given given
      refine ⟨_, text, u, whole.parsed, fun b member => ?_⟩
      rw [← toElement_of_bindAll placed]
      exact List.mem_map_of_mem member

/-- Each result of an expansion is the element of a row of a unit, put into place. -/
theorem rows_of_expandMacro {lookup : Ident → Option MacroDefinition}
    {invocation : MacroInvocation} {expansion : Expansion}
    (expanded : (expandMacro lookup invocation).result = .ok expansion) :
    ∃ fileName text u rows, (ScratchUnit.parse fileName text).result = .ok u ∧ u.Rows rows ∧
      ∀ b ∈ expansion.results, ∃ row ∈ rows,
        u.element? (some invocation.span) row.2 = some b.toElement ∧
          b.toElement.AttributedBy row.1 := by
  obtain ⟨fileName, text, u, parsed, results⟩ := results_of_expandMacro expanded
  obtain ⟨-, rows, laid, attributed⟩ := ScratchUnit.exists_rows parsed
  refine ⟨fileName, text, u, rows, parsed, laid, fun b member => ?_⟩
  obtain ⟨i, among, told⟩ := List.mem_filterMap.mp (results b member)
  rw [laid.items] at among
  obtain ⟨row, inRows, rfl⟩ := List.mem_map.mp among
  exact ⟨row, inRows, told, attributed row inRows _ _ told⟩

/-- The items of a unit stand one after another behind the inner attributes of its text, and the
attributes of an element are, in the order they are written in, those in front of its item and then,
if it is a function, a module, an implementation, a trait or a foreign block, those at the start of
its braces: just those in front unless there are such. So it is with the results of expansions,
which are elements of units; and a doc comment counts as an attribute `doc` where it stands. -/
theorem attributes_as_written {fileName : String} {text : List Char} {u : ScratchUnit}
    (parsed : (ScratchUnit.parse fileName text).result = .ok u) :
    (u.text = text ∧ ∃ rows, u.Rows rows ∧ ∀ row ∈ rows, ∀ invocation e,
      u.element? invocation row.2 = some e → e.AttributedBy row.1) ∧
    (∀ lookup invocation expansion, (expandMacro lookup invocation).result = .ok expansion →
      ∃ fileName text u rows, (ScratchUnit.parse fileName text).result = .ok u ∧ u.Rows rows ∧
        ∀ b ∈ expansion.results, ∃ row ∈ rows,
          u.element? (some invocation.span) row.2 = some b.toElement ∧
            b.toElement.AttributedBy row.1) ∧
    ∀ here cs lexemes ts doc, Token.Scans here cs lexemes → Reads lexemes ts →
      Lexeme.docComment? (skipSeparators cs) = some doc →
      ∃ there more later, Token.Scans there doc.rest more ∧ Reads more later ∧
        (doc.inner = false → outerPaths ts = "doc" :: outerPaths later) ∧
        (doc.inner = true → innerPaths ts = "doc" :: innerPaths later) :=
  ⟨ScratchUnit.exists_rows parsed, fun _ _ _ expanded => rows_of_expandMacro expanded,
    fun _ _ _ _ _ scans reads found => paths_of_docComment scans reads found⟩

/-- A module with a doc comment and attributes, in braces too, and what an expansion makes of it. -/
theorem attributes_as_written_nested :
    let text := "/// d\n#[cfg(x)] mod m \x7b //! i\n struct A; \x7d".toList
    let definition : MacroDefinition :=
      ⟨⟨"items"⟩, "macro_rules! items { ($($i:item)*) => ($(#[my::own] $i)*) }", .fake⟩
    let written : MacroInvocation :=
      ⟨⟨"items"⟩, "items! { #[cfg(y)] enum E { #[z] F } }", .fake, .module ⟨0⟩⟩
    ∃ u expansion here lexemes ts doc,
      (ScratchUnit.parse ScratchUnit.expansionFile text).result = .ok u ∧
      (u.elements none).map Element.attributes = [["doc", "cfg", "doc"]] ∧
      (expandMacro (fun _ => some definition) written).result = .ok expansion ∧
      expansion.results.map (fun b => b.attributes) = [["my::own", "cfg"]] ∧
      Token.Scans here text lexemes ∧ Reads lexemes ts ∧
      Lexeme.docComment? (skipSeparators text) = some doc ∧
      (u.text = text ∧ ∃ rows, u.Rows rows ∧ ∀ row ∈ rows, ∀ invocation e,
        u.element? invocation row.2 = some e → e.AttributedBy row.1) ∧
      (∃ fileName text u rows, (ScratchUnit.parse fileName text).result = .ok u ∧ u.Rows rows ∧
        ∀ b ∈ expansion.results, ∃ row ∈ rows,
          u.element? (some written.span) row.2 = some b.toElement ∧
            b.toElement.AttributedBy row.1) ∧
      ∃ there more later, Token.Scans there doc.rest more ∧ Reads more later ∧
        (doc.inner = false → outerPaths ts = "doc" :: outerPaths later) ∧
        (doc.inner = true → innerPaths ts = "doc" :: innerPaths later) := by
  intro text definition written
  have read : ((ScratchUnit.parse ScratchUnit.expansionFile text).result.toOption.map fun u =>
      (u.elements none).map Element.attributes) = some [["doc", "cfg", "doc"]] := by
    decide +kernel
  obtain ⟨u, given, told⟩ := Option.map_eq_some_iff.mp read
  have parsed := Attempt.of_toOption given
  have expanded : ((expandMacro (fun _ => some definition) written).result.toOption.map fun e =>
      e.results.map fun b => b.attributes) = some [["my::own", "cfg"]] := by
    decide +kernel
  obtain ⟨expansion, given, shown⟩ := Option.map_eq_some_iff.mp expanded
  have made := Attempt.of_toOption given
  have scanned : (ofText? text).isSome := by decide +kernel
  obtain ⟨ts, found⟩ := Option.isSome_iff_exists.mp scanned
  obtain ⟨mark, code, lexemes, whole, marked, scans, reads⟩ := ofText?_eq_some found
  -- the text has no byte-order mark
  have same : code = text := by
    rcases marked with rfl | rfl
    · exact whole.symm
    · have other : text.head? ≠ some byteOrderMark := by decide
      exact absurd (congrArg List.head? whole) other
  rw [same] at scans
  obtain ⟨doc, comment⟩ : ∃ doc, Lexeme.docComment? (skipSeparators text) = some doc := ⟨_, rfl⟩
  obtain ⟨rows, results, comments⟩ := attributes_as_written parsed
  exact ⟨u, expansion, _, lexemes, ts, doc, parsed, told, made, shown, scans, reads, comment, rows,
    results _ _ _ made, comments _ _ _ _ _ scans reads comment⟩

/-- An attribute in the braces of a module counts as one of its own, and it has none in front. -/
theorem inner_attribute_counted :
    let text := "mod m \x7b #![allow(dead_code)] \x7d".toList
    ∃ u e, (ScratchUnit.parse ScratchUnit.expansionFile text).result = .ok u ∧
      u.elements none = [e] ∧ e.attributes = ["allow"] ∧
      (ofText? text).map outerPaths = some [] := by
  intro text
  have read : ((ScratchUnit.parse ScratchUnit.expansionFile text).result.toOption.map fun u =>
      (u.elements none).map Element.attributes) = some [["allow"]] := by
    decide +kernel
  obtain ⟨u, given, told⟩ := Option.map_eq_some_iff.mp read
  obtain ⟨e, single, allowed⟩ := List.map_eq_singleton_iff.mp told
  exact ⟨u, e, Attempt.of_toOption given, single, allowed, by decide +kernel⟩

end MacroExpansion
