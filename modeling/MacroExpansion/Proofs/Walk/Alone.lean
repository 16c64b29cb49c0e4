import MacroExpansion.Proofs.Grammar.Alone
import MacroExpansion.Proofs.Walk.Texts

/-!
# Items as texts of their own

What an item takes of a text may be cut out. Main statement: what is cut out is a file of its own,
with just the item, and so is the text up to where its first item ends.
-/
namespace MacroExpansion

open Grammar TokenTree Text

/-- The lexeme that a tree which closes an item ends with. -/
theorem Grammar.ClosesItem.sole {t : TokenTree} (closes : ClosesItem t) :
    ∃ c, Token.sole? t.lastLexeme = some c ∧ c ∈ ';' :: Token.closers := by
  unfold ClosesItem at closes
  split at closes
  · exact ⟨'}', rfl, by decide⟩
  · exact ⟨';', rfl, by decide⟩
  · exact closes.elim

/-- No item ends with brackets. -/
theorem Grammar.Closed.unbracketed {ts : List TokenTree} (closed : Closed ts)
    (content : List TokenTree) (extent : Extent) :
    ts.getLast? ≠ some (.group .bracket content extent) := by
  intro last
  obtain ⟨front, t, rfl, closes⟩ := closed
  rw [List.getLast?_concat] at last
  cases last
  exact closes

/-! ## Texts without a preamble -/

/-- What is seen of some tokens of an item does not hang on what follows them. -/
theorem TokenTree.seenAll_apartAll {ts : List TokenTree} (closed : Closed ts) :
    seenAll (apartAll ts) = seenAll ts := by
  obtain ⟨front, t, rfl, closes⟩ := closed
  unfold ClosesItem at closes
  split at closes
  · simp [apartAll, apart]
  · simp [apartAll, apart, seenAll, seen]
  · exact closes.elim

/-- A `#!` is scanned as the start of an inner attribute, and what follows it is scanned on. -/
theorem Token.Scans.behind_marks {here : Position} {rest : List Char}
    {lexemes : List PlacedLexeme} {ts : List TokenTree}
    (scans : Token.Scans here ('#' :: '!' :: rest) lexemes) (reads : Reads lexemes ts) :
    ∃ t u later there more, ts = t :: u :: later ∧ Look.innerAttribute ts = true ∧
      Token.Scans there rest more ∧ Reads more later := by
  have stays (c : Char) (rest : List Char) (stuck : separatorStep? (c :: rest) = none) :
      skipSeparators (c :: rest) = c :: rest := skipSeparatorsWithin_of_none stuck _
  cases scans with
  | done nothing =>
    rw [stays '#' _ rfl] at nothing
    cases nothing
  | step _ skipped read after =>
    rw [stays '#' _ rfl] at skipped
    rw [← skipped] at read
    cases read
    cases after with
    | done nothing =>
      rw [stays '!' _ rfl] at nothing
      cases nothing
    | step _ skipped read after =>
      rw [stays '!' _ rfl] at skipped
      rw [← skipped] at read
      cases read
      cases reads with
      | leaf first reads =>
        cases first
        cases reads with
        | leaf second reads =>
          cases second
          exact ⟨_, _, _, _, _, rfl, rfl, after, reads⟩

/-- A text whose first tree is in brackets starts with a bracket. -/
theorem Token.Scans.starts_bracket {here : Position} {cs : List Char} {lexemes : List PlacedLexeme}
    {content later : List TokenTree} {extent : Extent} (scans : Token.Scans here cs lexemes)
    (reads : Reads lexemes (.group .bracket content extent :: later)) :
    (skipSeparators cs).head? = some '[' := by
  obtain ⟨place, more, rfl, -⟩ := reads.first
  obtain ⟨_, _, _, -, skipped, -, read, -⟩ := scans.first_plain nofun
  rw [skipped, Token.bracket_of_plain? read]
  rfl

/-- What has tokens has no byte-order mark but at its start. -/
theorem TokenTree.dropByteOrderMark_of_scans {mark code : List Char} {here : Position}
    {lexemes : List PlacedLexeme} (marked : mark = [] ∨ mark = [byteOrderMark])
    (scans : Token.Scans here code lexemes) : dropByteOrderMark (mark ++ code) = code := by
  rcases marked with rfl | rfl
  · cases code with
    | nil => rfl
    | cons c code =>
      rw [List.nil_append, dropByteOrderMark, if_neg]
      rintro rfl
      exact Token.not_scans_mark scans
  · rfl

/-- A text whose tokens start like a file is scanned as it is, but for a byte-order mark. -/
theorem TokenTree.ofText?_codeOf {own : List Char} {ts : List TokenTree}
    (found : ofText? own = some ts)
    (inner : ∃ names c, innerAttributes ⟨ts, false, none⟩ = .ok (names, c)) :
    ∃ us, ofText? (codeOf own) = some us ∧ unplacedAll us = unplacedAll ts := by
  obtain ⟨mark, code, lexemes, rfl, marked, scans, reads⟩ := ofText?_eq_some found
  have same : codeOf (mark ++ code) = code := by
    rw [codeOf, dropByteOrderMark_of_scans marked scans]
    unfold dropInterpreterLine
    split
    next rest =>
      obtain ⟨names, c, read⟩ := inner
      obtain ⟨_, _, _, _, _, rfl, opens, scansRest, readsRest⟩ := scans.behind_marks reads
      obtain ⟨_, _, content, extent, later, ahead⟩ := brackets_of_innerAttributes read opens
      obtain ⟨-, ahead⟩ := List.cons.inj ahead
      obtain ⟨-, rfl⟩ := List.cons.inj ahead
      rw [if_pos (scansRest.starts_bracket readsRest)]
    next => rfl
  obtain ⟨moved, scansMoved, alike⟩ := scans.relocate .origin
  obtain ⟨us, readsMoved, alikeTrees⟩ := reads.relocate alike
  rw [same]
  have bare : ([] : List Char) = [] ∨ [] = [byteOrderMark] := .inl rfl
  exact ⟨us, ofText?_of_scans bare scansMoved readsMoved, unplacedAll_of_moved alikeTrees⟩

/-- A text whose tokens start with no inner attribute has no interpreter line. -/
theorem TokenTree.unled_of_bare {own : List Char} {ts : List TokenTree}
    (found : ofText? own = some ts) (bare : Look.innerAttribute ts = false) : Unled own := by
  obtain ⟨mark, code, lexemes, rfl, marked, scans, reads⟩ := ofText?_eq_some found
  have unmarked := dropByteOrderMark_of_scans marked scans
  have kept (skip : List Char → List Char) :
      dropInterpreterLine skip (dropByteOrderMark (mark ++ code)) =
        dropByteOrderMark (mark ++ code) := by
    rw [unmarked]
    unfold dropInterpreterLine
    split
    next rest =>
      obtain ⟨_, _, _, _, _, -, opens, -⟩ := scans.behind_marks reads
      rw [bare] at opens
      cases opens
    next => rfl
  exact ⟨kept _, kept _⟩

/-! ## Items that stand in a text -/

/-- A text with the tokens of a file of one item is a file of it as it stands. -/
theorem Grammar.FileOf.parseFile_codeOf {own : List Char} {ts : List TokenTree} {i : Item}
    (scanned : ofText? own = some ts) (each : ∀ us, seenAll us = seenAll ts → FileOf i us) :
    ∃ j, parseFile (codeOf own) = .ok [j] ∧ AlikeItems i j := by
  obtain ⟨us, scannedCode, same⟩ := ofText?_codeOf scanned (each ts rfl).1
  obtain ⟨-, j, whole, alike⟩ := each us (seenAll_eq same)
  exact ⟨j, parseFile_eq_ok.mpr ⟨us, scannedCode, whole⟩, alike⟩

section

variable {code : List Char} {i : Item} {ts front taken : List TokenTree} {pre own : List Char}
  {n : Nat} {c d : Cursor}

/-- What an item takes of a text is, as a file of its own, that item. -/
theorem Item.Stands.parseFile_alone (stands : Item.Stands code .module i taken pre own)
    (deep : 3 * (weightOfAll taken + 1) ≤ n + 1) (read : (rules (n + 1)).item c = .ok (i, d))
    (took : Took taken c d) (closed : Closed taken) :
    ∃ j, parseFile (codeOf own) = .ok [j] ∧ AlikeItems i j := by
  obtain ⟨alone, scanned, same⟩ := stands.alone closed.unbracketed
  have sameSeen : seenAll alone = seenAll taken := (seenAll_eq same).trans (seenAll_apartAll closed)
  exact FileOf.parseFile_codeOf scanned fun us alike =>
    fileOf_item deep read took closed (alike.trans sameSeen)

/-- A text up to where an item ends has the tokens up to the item's last. -/
theorem Item.Stands.ofText?_front (stands : Item.Stands code .module i taken pre own)
    (scanned : ofText? code = some (front ++ (taken ++ ts))) (closed : Closed taken) :
    ∃ alone, ofText? (pre ++ own) = some alone ∧
      unplacedAll alone = unplacedAll (front ++ apartAll taken) := by
  obtain ⟨within, u, rfl, closes⟩ := closed
  obtain ⟨last, sole, closer⟩ := closes.sole
  have row : ofText? code = some ((front ++ within) ++ u :: ts) := by
    rw [scanned]
    simp
  obtain ⟨whole, post, alone, cut, stop, scannedFront, same⟩ := front_of_ofText? row sole closer
  have stops : byteSize whole = byteSize (pre ++ own) := by
    have there := stands.stops
    rw [stretch, List.getLast?_concat] at there
    rw [byteSize_append, ← there, ← stop]
    rfl
  obtain ⟨later, text⟩ := stands.text
  have first := slice?_append [] whole post
  have second := slice?_append [] (pre ++ own) later
  rw [List.nil_append, ← cut, byteSize_nil, Nat.zero_add, stops] at first
  rw [List.nil_append, ← text, byteSize_nil, Nat.zero_add, first] at second
  cases second
  refine ⟨alone, scannedFront, same.trans ?_⟩
  rw [apartAll, List.getLast?_concat]
  simp [List.append_assoc]

/-- A text up to where its first item ends is, as a file of its own, that item. -/
theorem Item.Stands.parseFile_front {names : List String}
    (stands : Item.Stands code .module i taken pre own) (scanned : ofText? code = some ts)
    (inner : innerAttributes ⟨ts, false, none⟩ = .ok (names, c)) (ahead : ts = front ++ c.rest)
    (deep : 3 * (weightOfAll (front ++ taken) + 1) ≤ n + 1)
    (read : (rules (n + 1)).item c = .ok (i, d)) (took : Took taken c d) (closed : Closed taken) :
    ∃ j, parseFile (codeOf (pre ++ own)) = .ok [j] ∧ AlikeItems i j := by
  have row : ofText? code = some (front ++ (taken ++ d.rest)) := by
    rw [scanned, ahead, took.ahead]
  obtain ⟨alone, scannedFront, same⟩ := stands.ofText?_front row closed
  have seenFront : seenAll alone = seenAll (front ++ taken) := by
    have parted := seenAll_apartAll closed
    rw [seenAll_eq same]
    simpa [seenAll] using parted
  exact FileOf.parseFile_codeOf scannedFront fun us alike =>
    fileOf_first deep inner ahead read took closed (alike.trans seenFront)

end

/-- Trees in other places end with the same punctuation. -/
theorem TokenTree.ends_punct {us inner : List TokenTree} {c : Char} {joint : Bool}
    {extent : Extent} (same : unplacedAll us = unplacedAll (inner ++ [.punct c joint extent])) :
    ∃ own place, us = own ++ [.punct c joint place] := by
  rw [unplacedAll_eq_map, unplacedAll_eq_map, List.map_append] at same
  obtain ⟨own, last, rfl, -, final⟩ := List.map_eq_append_iff.mp same
  obtain ⟨t, rfl, alike⟩ := List.map_eq_singleton_iff.mp final
  cases t <;> cases alike
  exact ⟨own, _, rfl⟩

instance : Placeless Look.innerAttribute := by
  unfold Look.innerAttribute
  infer_instance

/-- A text with the tokens of one item that ends with a semicolon is that item, which is cut out of
it with its tokens. -/
theorem Grammar.FileOf.cut {own : List Char} {ts inner : List TokenTree} {i : Item} {joint : Bool}
    {extent : Extent} (scanned : ofText? own = some ts) (bare : Look.innerAttribute ts = false)
    (semicolon : ts = inner ++ [.punct ';' joint extent])
    (each : ∀ us, seenAll us = seenAll ts → FileOf i us) (fileName : String) :
    ∃ j piece alone, parseFile (codeOf own) = .ok [j] ∧ AlikeItems i j ∧
      ScratchUnit.textOf? ⟨fileName, own, [j]⟩ j.head = some piece ∧
      ofText? piece = some alone ∧ unplacedAll alone = unplacedAll ts := by
  obtain ⟨us, scannedCode, same⟩ := ofText?_codeOf scanned (each ts rfl).1
  obtain ⟨-, j, whole, alike⟩ := each us (seenAll_eq same)
  have bareCode : Look.innerAttribute us = false := by
    rw [← placeless_unplaced Look.innerAttribute us, same,
      placeless_unplaced Look.innerAttribute ts,
      bare]
  have unled := unled_of_bare scanned bare
  have undivided : apartAll us = us := by
    rw [semicolon] at same
    obtain ⟨front, place, rfl⟩ := ends_punct same
    obtain rfl := last_apart_of_ofText? scannedCode List.getLast?_concat (by decide)
    simp [apartAll, apart]
  obtain ⟨n, deep, -⟩ := rulesFor_succ us
  have parsed : parseFile (codeOf own) = .ok [j] := parseFile_eq_ok.mpr ⟨us, scannedCode, whole⟩
  rw [deep] at whole
  obtain ⟨_, c, read, d, inner, run, single, empty⟩ := run_of_file whole
  rw [innerAttributes_of_none bareCode] at inner
  cases inner
  obtain ⟨⟨taken, k⟩, rfl, rfl⟩ := List.map_eq_singleton_iff.mp single.symm
  obtain rfl : us = taken := by simpa [empty] using run.tokens
  obtain ⟨e, one, took, closed⟩ : ∃ e, (rules (n + 1)).item ⟨us, false, none⟩ = .ok (k, e) ∧
      Took us ⟨us, false, none⟩ e ∧ Closed us := by
    cases run with
    | next one took closed _ => exact ⟨_, one, took, closed⟩
  have readOf : ReadOf us .module k := .item one took closed
  obtain ⟨pre, piece, stands⟩ := readOf.stands scannedCode ⟨[], [], by simpa using .top⟩
  obtain ⟨alone, scannedPiece, likePiece⟩ := stands.alone closed.unbracketed
  have only : ofText? (codeOf own) = some ([] ++ (us ++ [])) := by simpa using scannedCode
  obtain ⟨front, scannedFront, likeFront⟩ := stands.ofText?_front only closed
  rw [undivided] at likePiece likeFront
  have given : ScratchUnit.textOf? ⟨fileName, own, [k]⟩ k.head =
      some (if k.head.displaced then pre ++ piece else piece) := by
    rw [ScratchUnit.textOf?_eq, unled.cut, ← unled.scanned, stands.textIn?]
  cases displaced : k.head.displaced with
  | false =>
    rw [displaced] at given
    exact ⟨k, piece, alone, parsed, alike, given, scannedPiece, likePiece.trans same⟩
  | true =>
    rw [displaced] at given
    exact ⟨k, pre ++ piece, front, parsed, alike, given, scannedFront, likeFront.trans same⟩

end MacroExpansion
