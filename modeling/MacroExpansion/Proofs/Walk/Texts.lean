import MacroExpansion.Proofs.Expansion.Units
import MacroExpansion.Proofs.Grammar.Opening

/-!
# The texts of items

Items are cut out of a text by the places of their tokens. Main statement: where the rules of the
cut and of the scanner tell a `#!` the same way, what is cut out for an item is the stretch of its
own tokens, and as a text of its own that has just these tokens.
-/
namespace MacroExpansion

open Grammar TokenTree Text

variable {code : List Char} {root taken : List TokenTree} {kind : ScopeKind} {i : Item}

/-- Some tokens, the last of which forms no operator with what follows it. -/
def TokenTree.apartAll (ts : List TokenTree) : List TokenTree :=
  ts.dropLast ++ (ts.getLast?.map apart).toList

/-- An item stands in a text, in a region of some kind: it was read of tokens in a row there, which
take a stretch of it. -/
structure Item.Stands (code : List Char) (kind : ScopeKind) (i : Item) (taken : List TokenTree)
    (pre own : List Char) : Prop where
  read : ReadOf taken kind i
  row : ∃ root, ofText? code = some root ∧ Row root taken
  text : ∃ post, code = pre ++ own ++ post
  starts : (stretch taken).start.offset = byteSize pre
  stops : (stretch taken).stop.offset = byteSize pre + byteSize own
  /-- The stretch has these tokens and no others. Brackets at its end may be those that a doc
  comment stands for. -/
  alone : (∀ content extent, taken.getLast? ≠ some (.group .bracket content extent)) →
    ∃ alone, ofText? own = some alone ∧ unplacedAll alone = unplacedAll (apartAll taken)

/-- An item stands where it was read. -/
theorem Grammar.ReadOf.stands (read : ReadOf taken kind i) (found : ofText? code = some root)
    (row : Row root taken) : ∃ pre own, Item.Stands code kind i taken pre own := by
  obtain ⟨t, ts, first⟩ := List.exists_cons_of_ne_nil read.not_nil
  have starts : taken.head? = some t := by rw [first]; rfl
  have start : (stretch taken).start = t.extent.start := by rw [stretch, starts]; rfl
  obtain ⟨front, u, last, ends⟩ := read.last
  have stops : taken.getLast? = some u := by rw [last, List.getLast?_concat]
  have stop : (stretch taken).stop = u.extent.stop := by rw [stretch, stops]; rfl
  by_cases closes : ∃ c, Token.sole? u.lastLexeme = some c ∧ c ∈ ';' :: Token.closers
  · obtain ⟨c, sole, closes⟩ := closes
    have opening := read.opening starts
    rw [last] at row starts
    obtain ⟨pre, own, post, alone, whole, begins, ends, scanned, same⟩ :=
      stretch_of_row found row starts opening sole closes
    refine ⟨pre, own, read, ⟨root, found, last ▸ row⟩, ⟨post, whole⟩, ?_, ?_, fun _ =>
      ⟨alone, scanned, ?_⟩⟩
    · rw [start, begins]
    · rw [stop, ends]
    · rw [same, apartAll, stops, last, List.dropLast_concat]
      rfl
  · obtain ⟨pre, own, post, whole, begins, ends'⟩ := between_of_row found row starts stops
    refine ⟨pre, own, read, ⟨root, found, row⟩, ⟨post, whole⟩, ?_, ?_, fun other => ?_⟩
    · rw [start, begins]
    · rw [stop, ends']
    · refine absurd ?_ closes
      rcases ends with ⟨joint, extent, rfl⟩ | ⟨d, content, extent, rfl⟩
      · exact ⟨';', rfl, by decide⟩
      · cases d with
        | bracket => exact absurd stops (other content extent)
        | paren => exact ⟨')', rfl, by decide⟩
        | brace => exact ⟨'}', rfl, by decide⟩

/-- What is cut out for an item is its stretch, or all from the start of the text on if it counts as
starting there. -/
theorem Item.Stands.textIn? {pre own : List Char} (stands : Item.Stands code kind i taken pre own) :
    i.head.textIn? code = some (if i.head.displaced then pre ++ own else own) := by
  obtain ⟨post, rfl⟩ := stands.text
  rw [ItemHead.textIn?, ItemHead.range, stands.read.extent, stands.starts, stands.stops]
  split
  · have whole := slice?_append [] (pre ++ own) post
    simpa using whole
  · exact slice?_append pre own post

/-- The items of a text, however deep, stand in it. -/
theorem Item.Stands.of_parseFile {items : List Item} (parsed : parseFile code = .ok items)
    (member : i ∈ items) {k : Item} (holds : Item.Holds .module i kind k) :
    ∃ taken pre own, Item.Stands code kind k taken pre own := by
  obtain ⟨root, found, sourced⟩ := sourced_of_parseFile parsed
  obtain ⟨⟨taken, row, read⟩, -⟩ := sourced i member kind k holds
  obtain ⟨pre, own, stands⟩ := read.stands found row
  exact ⟨taken, pre, own, stands⟩

/-- The text that is cut is the one that was scanned just where both rules tell a `#!` the same way,
as they do where they pass over the same behind it. Then every item of a file, however deep, is cut
out as the stretch of its own tokens, by the walk and by a scratch unit alike, but for what counts
as starting where the text starts. -/
theorem items_cut_from_scanned_text {source : List Char} {items : List Item}
    (parsed : parseFile (codeOf source) = .ok items) :
    (stripPreamble source = codeOf source ↔ OpensAlike source) ∧
      ((∀ rest, dropByteOrderMark source = '#' :: '!' :: rest → Plain rest) → OpensAlike source) ∧
      (OpensAlike source →
        ∀ i ∈ items, ∀ kind k, Item.Holds .module i kind k →
          ∃ taken pre own, Item.Stands (stripPreamble source) kind k taken pre own ∧
            k.head.textIn? (stripPreamble source) =
              some (if k.head.displaced then pre ++ own else own) ∧
            ∀ fileName, ScratchUnit.textOf? ⟨fileName, source, items⟩ k.head =
              some (if k.head.displaced then pre ++ own else own)) := by
  refine ⟨stripPreamble_eq_codeOf_iff, .of_plain, fun alike i member kind k holds => ?_⟩
  have same := stripPreamble_eq_codeOf_iff.mpr alike
  rw [same]
  obtain ⟨taken, pre, own, stands⟩ := Item.Stands.of_parseFile parsed member holds
  refine ⟨taken, pre, own, stands, stands.textIn?, fun fileName => ?_⟩
  rw [ScratchUnit.textOf?_eq, same]
  exact stands.textIn?

/-- A file with an attribute behind a `#!` and comments, and items in a module. -/
theorem items_cut_from_scanned_text_commented :
    let source := "#! /* a */ // b\n [x]\nmod m \x7b fn f() \x7b\x7d struct A; \x7d".toList
    ∃ items, parseFile (codeOf source) = .ok items ∧
      stripPreamble source = codeOf source ∧
      ∀ i ∈ items, ∀ kind k, Item.Holds .module i kind k →
        ∃ taken pre own, Item.Stands (stripPreamble source) kind k taken pre own ∧
          k.head.textIn? (stripPreamble source) =
            some (if k.head.displaced then pre ++ own else own) ∧
          ∀ fileName, ScratchUnit.textOf? ⟨fileName, source, items⟩ k.head =
            some (if k.head.displaced then pre ++ own else own) := by
  intro source
  have plain : ∀ rest, dropByteOrderMark source = '#' :: '!' :: rest → Plain rest := by
    intro rest whole
    cases whole
    have flat : Flat " a ".toList := by decide
    refine .blank rfl (.block flat rfl (.blank rfl ?_))
    exact .line rfl (.blank rfl (.blank rfl (.stop rfl rfl)))
  have given : (parseFile (codeOf source)).toOption.isSome := by decide +kernel
  obtain ⟨items, parsed⟩ := Option.isSome_iff_exists.mp given
  have parsed := Attempt.of_toOption parsed
  obtain ⟨same, alike, cut⟩ := items_cut_from_scanned_text parsed
  exact ⟨items, parsed, same.mpr (alike plain), cut (alike plain)⟩

/-- The two rules differ on an empty comment behind a `#!`: a line is cut off that was scanned. -/
theorem empty_comment_cut_off :
    let source := "#!/**/[allow(dead_code)]\nstruct A;".toList
    (parseFile (codeOf source)).toOption.isSome ∧ codeOf source = source ∧
      stripPreamble source = "\nstruct A;".toList := by
  decide +kernel

end MacroExpansion
