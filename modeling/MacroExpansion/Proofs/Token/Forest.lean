import MacroExpansion.Proofs.Token.Scan
import MacroExpansion.Token.Forest

/-!
# Which lexemes make up a group

`Reads` tells the trees of some lexemes by their structure: a group is the lexemes between a
delimiter and the one that closes it. Main statements: matching up delimiters finds just these
trees, and where parentheses stand in the token trees of a text, however deep, what stands between
them in the text has, as a text of its own, the token trees of the group's content, but for their
places.
-/
namespace MacroExpansion.TokenTree

open Token

/-- The tree that a lexeme is, if it is no delimiter. -/
def leaf? : PlacedLexeme → Option TokenTree
  | ⟨.ident spelling, extent⟩ => some (.ident spelling extent)
  | ⟨.punct char joint, extent⟩ => some (.punct char joint extent)
  | ⟨.literal spelling, extent⟩ => some (.literal spelling extent)
  | ⟨.opening _, _⟩ => none
  | ⟨.closing _, _⟩ => none

/-- The trees of some lexemes in which every group is closed by its own delimiter. -/
inductive Reads : List PlacedLexeme → List TokenTree → Prop where
  | done : Reads [] []
  | leaf {l : PlacedLexeme} {t : TokenTree} {rest : List PlacedLexeme} {ts : List TokenTree}
      (single : leaf? l = some t) (later : Reads rest ts) : Reads (l :: rest) (t :: ts)
  | group {d : Delimiter} {first last : Extent} {inner rest : List PlacedLexeme}
      {content ts : List TokenTree} (within : Reads inner content) (later : Reads rest ts) :
      Reads (⟨.opening d, first⟩ :: (inner ++ ⟨.closing d, last⟩ :: rest))
        (.group d content ⟨first.start, last.stop⟩ :: ts)

/-! ## Matching up delimiters -/

theorem close?_of_leaf? {l : PlacedLexeme} {t : TokenTree} (single : leaf? l = some t)
    (rest : List PlacedLexeme) (groups : List OpenGroup) (done : List TokenTree) :
    close? (l :: rest) groups done = close? rest groups (t :: done) := by
  unfold leaf? at single
  split at single <;> cases single <;> rfl

/-- What is read on the present level, up to the end or to the delimiter that closes it. -/
theorem reads_of_close? (n : Nat) {lexemes : List PlacedLexeme} {groups : List OpenGroup}
    {done found : List TokenTree} (bound : lexemes.length ≤ n)
    (closed : close? lexemes groups done = some found) :
    ∃ front ts after, lexemes = front ++ after ∧ Reads front ts ∧
      close? after groups (ts.reverse ++ done) = some found ∧
      (after = [] ∨ ∃ d extent rest, after = ⟨.closing d, extent⟩ :: rest) := by
  induction n generalizing lexemes groups done with
  | zero =>
    obtain rfl : lexemes = [] := List.length_eq_zero_iff.mp (by omega)
    exact ⟨[], [], [], rfl, .done, closed, .inl rfl⟩
  | succ n ih =>
    match lexemes, closed with
    | [], closed => exact ⟨[], [], [], rfl, .done, closed, .inl rfl⟩
    | ⟨.opening d, first⟩ :: rest, closed =>
      rw [close?] at closed
      have short : rest.length ≤ n := by simpa using bound
      obtain ⟨inner, content, after, rfl, within, closed, ends⟩ := ih short closed
      rcases ends with rfl | ⟨other, last, later, rfl⟩
      · cases closed
      · rw [close?] at closed
        split at closed
        next same =>
          obtain rfl : other = d := same
          simp only [List.append_nil, List.reverse_reverse] at closed
          have shorter : later.length ≤ n := by
            simp only [List.length_append, List.length_cons] at short
            omega
          obtain ⟨front, ts, after, rfl, reads, closed, ends⟩ := ih shorter closed
          refine ⟨⟨.opening other, first⟩ :: (inner ++ ⟨.closing other, last⟩ :: front), _, after,
            by simp, .group within reads, ?_, ends⟩
          rwa [List.reverse_cons, List.append_assoc]
        next => cases closed
    | ⟨.closing d, extent⟩ :: rest, closed =>
      exact ⟨[], [], _, rfl, .done, closed, .inr ⟨d, extent, rest, rfl⟩⟩
    | ⟨.ident spelling, extent⟩ :: rest, closed
    | ⟨.punct char joint, extent⟩ :: rest, closed
    | ⟨.literal spelling, extent⟩ :: rest, closed =>
      rw [close?_of_leaf? rfl] at closed
      obtain ⟨front, ts, after, rfl, reads, closed, ends⟩ := ih (by simpa using bound) closed
      exact ⟨_, _, after, rfl, Reads.leaf rfl reads, by simpa using closed, ends⟩

/-- Trees that are there are found, whatever follows and is around them. -/
theorem Reads.close?_append {lexemes : List PlacedLexeme} {ts : List TokenTree}
    (reads : Reads lexemes ts) (after : List PlacedLexeme) (groups : List OpenGroup)
    (done : List TokenTree) :
    close? (lexemes ++ after) groups done = close? after groups (ts.reverse ++ done) := by
  induction reads generalizing after groups done with
  | done => rfl
  | leaf single _ ih =>
    rw [List.cons_append, close?_of_leaf? single, ih]
    simp
  | group _ _ within later =>
    simp only [List.cons_append, List.append_assoc]
    rw [close?, within, close?, if_pos rfl, later]
    simp

/-- Matching up delimiters finds the trees that some lexemes have. -/
theorem ofLexemes?_eq_some_iff {lexemes : List PlacedLexeme} {ts : List TokenTree} :
    ofLexemes? lexemes = some ts ↔ Reads lexemes ts := by
  constructor
  · intro found
    obtain ⟨front, read, after, rfl, reads, closed, ends⟩ := reads_of_close? _ (Nat.le_refl _) found
    rcases ends with rfl | ⟨_, _, _, rfl⟩
    · rw [close?, List.append_nil, List.reverse_reverse] at closed
      cases closed
      rwa [List.append_nil]
    · cases closed
  · intro reads
    have found := reads.close?_append [] [] []
    rw [List.append_nil, List.append_nil, close?, List.reverse_reverse] at found
    exact found

/-- What some lexemes have they have with others behind them, and these have the rest. -/
theorem Reads.of_append {lexemes more : List PlacedLexeme} {ts found : List TokenTree}
    (reads : Reads lexemes ts) (whole : Reads (lexemes ++ more) found) :
    ∃ later, found = ts ++ later ∧ Reads more later := by
  have closed : close? more [] (ts.reverse ++ []) = some found := by
    rw [← reads.close?_append more [] []]
    exact ofLexemes?_eq_some_iff.mpr whole
  obtain ⟨front, later, after, rfl, behind, closed, ends⟩ :=
    reads_of_close? _ (Nat.le_refl _) closed
  rcases ends with rfl | ⟨_, _, _, rfl⟩
  · cases closed
    exact ⟨later, by simp, by rwa [List.append_nil]⟩
  · cases closed

/-! ## Trees without their places -/

mutual

/-- A tree with nothing told of where it stands. -/
def unplaced : TokenTree → TokenTree
  | ident spelling _ => .ident spelling ⟨.origin, .origin⟩
  | punct char joint _ => .punct char joint ⟨.origin, .origin⟩
  | literal spelling _ => .literal spelling ⟨.origin, .origin⟩
  | group delimiter content _ => .group delimiter (unplacedAll content) ⟨.origin, .origin⟩

def unplacedAll : List TokenTree → List TokenTree
  | [] => []
  | t :: ts => t.unplaced :: unplacedAll ts

end

/-- The same tree in a text that starts in another place. -/
structure Moved (here there : Nat) (t u : TokenTree) : Prop where
  alike : u.unplaced = t.unplaced
  extent : t.extent.Moved here there u.extent

variable {here there : Nat}

theorem unplacedAll_of_moved {ts us : List TokenTree}
    (moved : List.Forall₂ (Moved here there) ts us) : unplacedAll us = unplacedAll ts := by
  induction moved with
  | nil => rfl
  | cons first _ ih => rw [unplacedAll, first.alike, ih, unplacedAll]

/-- What is no delimiter is told by its lexeme, but for its place. -/
theorem leaf?_moved {l m : PlacedLexeme} {t : TokenTree} (same : l.Moved here there m)
    (single : leaf? l = some t) : ∃ u, leaf? m = some u ∧ t.Moved here there u := by
  obtain ⟨lexeme, extent⟩ := l
  obtain ⟨_, extent'⟩ := m
  obtain ⟨same, place⟩ := same
  cases same
  cases lexeme <;> cases single <;> exact ⟨_, rfl, rfl, place⟩

theorem unplacedAll_eq_map (ts : List TokenTree) : unplacedAll ts = ts.map unplaced := by
  induction ts with
  | nil => rfl
  | cons t ts ih => rw [unplacedAll, ih, List.map_cons]

theorem unplacedAll_append (ts us : List TokenTree) :
    unplacedAll (ts ++ us) = unplacedAll ts ++ unplacedAll us := by
  simp [unplacedAll_eq_map]

theorem eq_of_leaf?_ident {l : PlacedLexeme} {spelling : String} {extent : Extent}
    (single : leaf? l = some (.ident spelling extent)) : l = ⟨.ident spelling, extent⟩ := by
  unfold leaf? at single
  split at single <;> cases single
  rfl

/-- Lists that correspond to two lists in a row are two lists in a row. -/
theorem of_forall₂_append {α β : Type} {R : α → β → Prop} {xs ys : List α} {zs : List β}
    (h : List.Forall₂ R (xs ++ ys) zs) :
    ∃ front back, zs = front ++ back ∧ List.Forall₂ R xs front ∧ List.Forall₂ R ys back := by
  induction xs generalizing zs with
  | nil => exact ⟨[], zs, rfl, .nil, h⟩
  | cons x xs ih =>
    obtain ⟨z, later, first, behind, rfl⟩ := List.forall₂_cons_left_iff.mp h
    obtain ⟨front, back, rfl, early, late⟩ := ih behind
    exact ⟨z :: front, back, rfl, .cons first early, late⟩

/-- The same lexemes in other places have the same trees, but for their places. -/
theorem Reads.relocate {lexemes moved : List PlacedLexeme} {ts : List TokenTree}
    (reads : Reads lexemes ts) (same : List.Forall₂ (PlacedLexeme.Moved here there) lexemes moved) :
    ∃ us, Reads moved us ∧ List.Forall₂ (Moved here there) ts us := by
  induction reads generalizing moved with
  | done =>
    cases same
    exact ⟨[], .done, .nil⟩
  | leaf single _ ih =>
    obtain ⟨m, rest, first, later, rfl⟩ := List.forall₂_cons_left_iff.mp same
    obtain ⟨u, single, alike⟩ := leaf?_moved first single
    obtain ⟨us, reads, alikes⟩ := ih later
    exact ⟨u :: us, .leaf single reads, .cons alike alikes⟩
  | group _ _ within later =>
    obtain ⟨⟨_, first'⟩, rest, ⟨rfl, startsAt⟩, behind, rfl⟩ := List.forall₂_cons_left_iff.mp same
    obtain ⟨inner, rest, rfl, sameInner, behind⟩ := of_forall₂_append behind
    obtain ⟨⟨_, last'⟩, rest, ⟨rfl, stopsAt⟩, sameRest, rfl⟩ := List.forall₂_cons_left_iff.mp behind
    obtain ⟨content, inside, alike⟩ := within sameInner
    obtain ⟨us, reads, alikes⟩ := later sameRest
    refine ⟨_, .group inside reads, .cons ⟨?_, startsAt.start, stopsAt.stop⟩ alikes⟩
    rw [unplaced, unplacedAll_of_moved alike, unplaced]

/-! ## Groups of a text -/

/-- A tree stands among others or in a group of theirs, however deep. -/
inductive Within (t : TokenTree) : List TokenTree → Prop where
  | here {ts : List TokenTree} (member : t ∈ ts) : Within t ts
  | deeper {ts content : List TokenTree} {d : Delimiter} {extent : Extent}
      (member : .group d content extent ∈ ts) (inside : Within t content) : Within t ts

/-- The lexemes around the content of a group, and where it starts and stops. -/
theorem Reads.of_mem {lexemes : List PlacedLexeme} {ts content : List TokenTree} {d : Delimiter}
    {extent : Extent} (reads : Reads lexemes ts) (member : .group d content extent ∈ ts) :
    ∃ before first inner last after,
      lexemes = before ++ ⟨.opening d, first⟩ :: (inner ++ ⟨.closing d, last⟩ :: after) ∧
      Reads inner content ∧ extent = ⟨first.start, last.stop⟩ := by
  induction reads with
  | done => cases member
  | leaf single _ ih =>
    rcases List.mem_cons.mp member with rfl | member
    · unfold leaf? at single
      split at single <;> cases single
    · obtain ⟨before, first, inner, last, after, rfl, within, place⟩ := ih member
      exact ⟨_ :: before, first, inner, last, after, rfl, within, place⟩
  | @group e first last inner rest _ _ within _ _ ih =>
    rcases List.mem_cons.mp member with same | member
    · cases same
      exact ⟨[], first, inner, last, rest, rfl, within, rfl⟩
    · obtain ⟨before, first', inner', last', after, rfl, within', place⟩ := ih member
      exact ⟨⟨.opening e, first⟩ :: (inner ++ ⟨.closing e, last⟩ :: before), first', inner', last',
        after, by simp, within', place⟩

theorem Reads.of_within {lexemes : List PlacedLexeme} {ts content : List TokenTree} {d : Delimiter}
    {extent : Extent} (reads : Reads lexemes ts) (inside : Within (.group d content extent) ts) :
    ∃ before first inner last after,
      lexemes = before ++ ⟨.opening d, first⟩ :: (inner ++ ⟨.closing d, last⟩ :: after) ∧
      Reads inner content ∧ extent = ⟨first.start, last.stop⟩ := by
  induction inside generalizing lexemes with
  | here member => exact reads.of_mem member
  | @deeper _ _ e _ member _ ih =>
    obtain ⟨before, first, inner, last, after, rfl, within, _⟩ := reads.of_mem member
    obtain ⟨before', first', inner', last', after', rfl, within', place⟩ := ih within
    exact ⟨before ++ ⟨.opening e, first⟩ :: before', first', inner', last',
      after' ++ ⟨.closing e, last⟩ :: after, by simp, within', place⟩

/-- Parentheses among the token trees of a text stand in the text at the bytes that are told. What
stands between them has the trees of their content, but for their places, and is not empty if there
are any. -/
theorem text_of_within {cs : List Char} {ts content : List TokenTree} {extent : Extent}
    (found : ofText? cs = some ts) (inside : Within (.group .paren content extent) ts) :
    ∃ pre inner post alone, cs = pre ++ '(' :: (inner ++ ')' :: post) ∧
      extent.start.offset = Text.byteSize pre ∧
      extent.stop.offset = Text.byteSize pre + 1 + Text.byteSize inner + 1 ∧
      ofText? inner = some alone ∧ unplacedAll alone = unplacedAll content ∧
      (content ≠ [] → inner ≠ []) := by
  obtain ⟨lexemes, scanned, matched⟩ := Option.bind_eq_some_iff.mp found
  obtain ⟨mark, code, rfl, _, scans⟩ := scans_of_scan? scanned
  obtain ⟨before, first, middle, last, after, rfl, reads, rfl⟩ :=
    (ofLexemes?_eq_some_iff.mp matched).of_within inside
  obtain ⟨front, rest, rfl, rfl, scans, _⟩ := scans.split (c := '(') rfl
  obtain ⟨inner, post, rfl, rfl, _, scansTo⟩ := scans.split (c := ')') rfl
  have scansInner := (scansTo.cut (.before (by simp [closers]) post)).append (.done rfl)
  rw [List.append_nil, List.append_nil] at scansInner
  obtain ⟨moved, alone, same⟩ := scansInner.relocate .origin
  obtain ⟨trees, readsAlone, alike⟩ := reads.relocate same
  refine ⟨mark ++ front, inner, post, trees, by simp, ?_, ?_, ?_, unplacedAll_of_moved alike, ?_⟩
  · simp [Position.offset_after, Position.origin]
  · have one : '('.utf8Size = 1 ∧ ')'.utf8Size = 1 := by decide
    simp only [Position.offset_next, Position.offset_after, one, Position.origin,
      Text.byteSize_append]
    omega
  · rw [ofText?, alone.scan?, Option.bind_some, ofLexemes?_eq_some_iff]
    exact readsAlone
  · rintro nonempty rfl
    obtain rfl := scansInner.eq_nil
    cases reads
    exact nonempty rfl

end MacroExpansion.TokenTree
