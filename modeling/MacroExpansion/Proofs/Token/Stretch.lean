import Mathlib.Data.List.Chain
import MacroExpansion.Proofs.Token.Join

/-!
# The text of some tokens

Tokens that stand in a row take a stretch of their text, from the start of the first to the end of
the last. Main statement: if the row begins like an item and ends with a brace, a parenthesis or a
semicolon, then that stretch has, as a text of its own, just these tokens, but for their places and
for what the last of them forms an operator with.
-/
namespace MacroExpansion.Token

open Text Lexeme

variable {here : Position} {cs : List Char} {before after found : List PlacedLexeme}

/-! ## Parts of a scan -/

/-- A lexeme that may open an item: a word, or the start of an attribute or of a rooted path. -/
def opens : Lexeme → Bool
  | .ident _ => true
  | .punct char _ => char == '#' || char == ':'
  | _ => false

/-- Within what a doc comment stands for, only its own word opens anything, and that in brackets. -/
theorem ofDocComment_opens {doc : DocComment} {front back : List Lexeme} {l m : Lexeme}
    (whole : ofDocComment doc = front ++ l :: m :: back) (opening : opens m) :
    l = .opening .bracket := by
  have chain : (ofDocComment doc).IsChain fun l m => opens m → l = .opening .bracket := by
    unfold ofDocComment
    cases doc.inner <;> simp [opens]
  rw [whole] at chain
  exact (List.isChain_cons_cons.mp (List.isChain_append.mp chain).2.1).1 opening

/-- What opens an item is scanned from behind what stands before it, which is no doc comment that
goes on, and that is scanned up to it. -/
theorem Scans.part (scans : Scans here cs (before ++ after))
    (outside : ∀ l ∈ before.getLast?, l.lexeme ≠ .opening .bracket)
    (opening : ∀ l ∈ after.head?, opens l.lexeme) :
    ∃ front rest, cs = front ++ rest ∧ ScansTo rest here front before ∧
      Scans (here.after front) rest after := by
  generalize all : before ++ after = found at scans
  induction scans generalizing before with
  | done nothing =>
    obtain ⟨rfl, rfl⟩ := List.append_eq_nil_iff.mp all
    exact ⟨[], _, rfl, .done rfl, .done nothing⟩
  | @step here cs blank taken rest lexemes later text skipped read scans ih =>
    -- what is taken off ends with what stands before the part, or goes on in the rest
    have upTo {more : List PlacedLexeme} {front rest' : List Char} (behind : rest = front ++ rest')
        (scansTo : ScansTo rest' ((here.after blank).after taken) front more) :
        ScansTo rest' here (blank ++ (taken ++ front)) (lexemes.map (fun lexeme =>
          ⟨lexeme, ⟨here.after blank, (here.after blank).after taken⟩⟩) ++ more) := by
      rw [behind] at skipped read text
      refine .step rfl ?_ read scansTo
      rw [← skipped, text]
      simp
    rcases List.append_eq_append_iff.mp all with ⟨more, made, same⟩ | ⟨more, made, same⟩
    · cases more with
      | nil =>
        rw [List.append_nil] at made
        rw [List.nil_append] at same
        refine ⟨blank ++ (taken ++ []), rest, by simp [text], ?_, ?_⟩
        · rw [← made, ← List.append_nil (lexemes.map _)]
          exact upTo (List.nil_append rest).symm (.done rfl)
        · rwa [List.append_nil, Position.after_append, same]
      | cons m more =>
        rcases List.eq_nil_or_concat' before with rfl | ⟨early, l, rfl⟩
        · rw [List.nil_append] at all
          exact ⟨[], cs, rfl, .done rfl, all ▸ .step text skipped read scans⟩
        · -- the two lexemes would stand within one doc comment
          have opened : opens m.lexeme := opening m (by simp [same])
          have whole : lexemes = early.map PlacedLexeme.lexeme ++ l.lexeme :: m.lexeme ::
              more.map PlacedLexeme.lexeme := by
            have lexed := congrArg (List.map PlacedLexeme.lexeme) made
            rw [List.map_map] at lexed
            refine (List.map_id lexemes).symm.trans (lexed.trans ?_)
            simp
          rcases next?_some read with ⟨doc, rfl⟩ | ⟨one, rfl, -⟩
          · exact absurd (ofDocComment_opens whole opened) (outside l (by simp))
          · have length := congrArg List.length whole
            simp only [List.length_cons, List.length_nil, List.length_append, List.length_map]
              at length
            omega
    · have outsideLater : ∀ m ∈ more.getLast?, m.lexeme ≠ .opening .bracket := by
        intro m last
        refine outside m ?_
        rw [made, List.getLast?_append, last]
        rfl
      obtain ⟨front, rest', behind, scansTo, scansRest⟩ := ih outsideLater same.symm
      refine ⟨blank ++ (taken ++ front), rest', by simp [text, behind], ?_, ?_⟩
      · rw [made]
        exact upTo behind scansTo
      · rwa [Position.after_append, Position.after_append]

/-- A text is scanned from its first lexeme on. -/
theorem Scans.from_first {l : PlacedLexeme} {later : List PlacedLexeme}
    (scans : Scans here cs (l :: later)) :
    ∃ blank rest, cs = blank ++ rest ∧ l.extent.start = here.after blank ∧
      Scans l.extent.start rest (l :: later) := by
  generalize all : l :: later = found at scans
  cases scans with
  | done => cases all
  | @step _ _ blank taken rest lexemes more text skipped read scans =>
    have nonempty : lexemes ≠ [] := by
      rintro rfl
      rcases next?_some read with ⟨doc, same⟩ | ⟨one, same, -⟩
      · have last := ofDocComment_last doc
        rw [← same] at last
        cases last
      · cases same
    obtain ⟨first, lexemes, rfl⟩ := List.exists_cons_of_ne_nil nonempty
    obtain ⟨rfl, rfl⟩ := List.cons.inj all
    have still : skipSeparators (taken ++ rest) = taken ++ rest := by
      rw [← skipped]
      exact skipSeparators_of_none (separatorStep?_skipSeparators _)
    exact ⟨blank, taken ++ rest, text, rfl, .step (List.nil_append _).symm still read scans⟩

/-- A text is scanned from a lexeme on that no doc comment stands for. -/
theorem Scans.from_solitary {l : PlacedLexeme} (scans : Scans here cs (before ++ l :: after))
    (solitary : ∀ doc, l.lexeme ∉ ofDocComment doc) :
    ∃ front rest, cs = front ++ rest ∧ Scans (here.after front) rest (l :: after) := by
  generalize all : before ++ l :: after = found at scans
  induction scans generalizing before with
  | done => simp at all
  | @step here cs blank taken rest lexemes later text skipped read scans ih =>
    have inLater (more : List PlacedLexeme) (same : more ++ l :: after = later) :
        ∃ front rest, cs = front ++ rest ∧ Scans (here.after front) rest (l :: after) := by
      obtain ⟨front, rest', behind, next⟩ := ih same
      refine ⟨blank ++ (taken ++ front), rest', by simp [text, behind], ?_⟩
      rwa [Position.after_append, Position.after_append]
    rcases List.append_eq_append_iff.mp all with ⟨more, made, same⟩ | ⟨more, _, same⟩
    · cases more with
      | nil => exact inLater [] same
      | cons first more =>
        obtain ⟨rfl, -⟩ := List.cons.inj same
        have among : l.lexeme ∈ lexemes := by
          obtain ⟨_, member, rfl⟩ := List.mem_map.mp
            (made ▸ List.mem_append_right before List.mem_cons_self : l ∈ lexemes.map _)
          exact member
        rcases next?_some read with ⟨doc, rfl⟩ | ⟨one, rfl, -⟩
        · exact absurd among (solitary doc)
        · have length := congrArg List.length made
          simp only [List.length_map, List.length_append, List.length_cons, List.length_nil]
            at length
          obtain rfl : before = [] := List.eq_nil_of_length_eq_zero (by omega)
          rw [List.nil_append] at all
          exact ⟨[], cs, rfl, all ▸ .step text skipped read scans⟩
    · exact inLater more same.symm

theorem ofDocComment_begins (doc : DocComment) :
    ∃ later, ofDocComment doc = .punct '#' false :: later := by
  unfold ofDocComment
  cases doc.inner <;> exact ⟨_, rfl⟩

/-- The first lexeme of a text is read behind separators if it begins no attribute. -/
theorem Scans.first_plain {l : PlacedLexeme} {later : List PlacedLexeme}
    (scans : Scans here cs (l :: later)) (unmarked : ∀ joint, l.lexeme ≠ .punct '#' joint) :
    ∃ blank taken rest, cs = blank ++ (taken ++ rest) ∧ skipSeparators cs = taken ++ rest ∧
      l.extent = ⟨here.after blank, (here.after blank).after taken⟩ ∧
      plain? (taken ++ rest) = some (l.lexeme, rest) ∧ Scans l.extent.stop rest later := by
  generalize all : l :: later = found at scans
  cases scans with
  | done => cases all
  | @step _ _ blank taken rest lexemes more text skipped read scans =>
    rcases next?_some read with ⟨doc, rfl⟩ | ⟨one, rfl, found⟩
    · obtain ⟨_, begins⟩ := ofDocComment_begins doc
      rw [begins] at all
      obtain ⟨rfl, -⟩ := List.cons.inj all
      exact absurd rfl (unmarked false)
    · obtain ⟨rfl, rfl⟩ := List.cons.inj all
      exact ⟨blank, taken, rest, text, skipped, rfl, found, scans⟩

/-- From the start of a lexeme to the end of one that is not before it there is a stretch of the
text. -/
theorem Scans.between {l m : PlacedLexeme} {later : List PlacedLexeme}
    (scans : Scans here cs (before ++ l :: later)) (member : m ∈ l :: later) :
    ∃ pre own post, cs = pre ++ own ++ post ∧ l.extent.start = here.after pre ∧
      m.extent.stop = here.after (pre ++ own) := by
  have ends {here : Position} {cs : List Char} {found : List PlacedLexeme} {m : PlacedLexeme}
      (scans : Scans here cs found) (member : m ∈ found) :
      ∃ own post, cs = own ++ post ∧ m.extent.stop = here.after own := by
    induction scans with
    | done => cases member
    | @step here cs blank taken rest lexemes later text _ _ _ ih =>
      rcases List.mem_append.mp member with first | among
      · obtain ⟨_, _, rfl⟩ := List.mem_map.mp first
        exact ⟨blank ++ taken, rest, by simp [text], by rw [Position.after_append]⟩
      · obtain ⟨own, post, behind, stop⟩ := ih among
        refine ⟨blank ++ (taken ++ own), post, by simp [text, behind], ?_⟩
        rw [stop, Position.after_append, Position.after_append]
  generalize all : before ++ l :: later = found at scans
  induction scans generalizing before with
  | done =>
    rw [List.append_eq_nil_iff] at all
    cases all.2
  | @step here cs blank taken rest lexemes more text skipped read scans ih =>
    rcases List.append_eq_append_iff.mp all with ⟨inner, made, same⟩ | ⟨inner, made, same⟩
    · cases inner with
      | nil =>
        obtain ⟨pre, own, post, behind, start, stop⟩ := ih ((List.nil_append _).trans same)
        refine ⟨blank ++ (taken ++ pre), own, post, by simp [text, behind], ?_, ?_⟩
        · simp only [start, Position.after_append]
        · simp only [stop, Position.after_append]
      | cons first inner =>
        obtain ⟨rfl, rfl⟩ := List.cons.inj same
        have placed (x : PlacedLexeme) (among : x ∈ l :: inner) :
            x.extent = ⟨here.after blank, (here.after blank).after taken⟩ := by
          obtain ⟨_, _, rfl⟩ := List.mem_map.mp
            (made ▸ List.mem_append_right before among : x ∈ lexemes.map _)
          rfl
        have either : m ∈ (l :: inner) ++ more := member
        rcases List.mem_append.mp either with near | among
        · refine ⟨blank, taken, rest, by simp [text], ?_, ?_⟩
          · rw [placed l List.mem_cons_self]
          · rw [placed m near, Position.after_append]
        · obtain ⟨own, post, behind, stop⟩ := ends scans among
          refine ⟨blank, taken ++ own, post, by simp [text, behind], ?_, ?_⟩
          · rw [placed l List.mem_cons_self]
          · rw [stop, Position.after_append, Position.after_append]
    · obtain ⟨pre, own, post, behind, start, stop⟩ := ih same.symm
      refine ⟨blank ++ (taken ++ pre), own, post, by simp [text, behind], ?_, ?_⟩
      · simp only [start, Position.after_append]
      · simp only [stop, Position.after_append]

/-- No lexeme of a text starts before it. -/
theorem Scans.start_ge (scans : Scans here cs found) {l : PlacedLexeme} (member : l ∈ found) :
    here.offset ≤ l.extent.start.offset := by
  induction scans with
  | done => cases member
  | @step here cs blank taken rest lexemes later _ _ _ _ ih =>
    rcases List.mem_append.mp member with first | among
    · obtain ⟨_, _, rfl⟩ := List.mem_map.mp first
      simp only [Position.offset_after]
      omega
    · have bound := ih among
      simp only [Position.offset_after] at bound
      omega

/-- Where a text may be cut, all that follows starts behind the cut. -/
theorem Scans.stop_le_start {l : Lexeme} {extent : Extent} {c : Char}
    (scans : Scans here cs (before ++ ⟨l, extent⟩ :: after)) (sole : sole? l = some c)
    {m : PlacedLexeme} (member : m ∈ after) : extent.stop.offset ≤ m.extent.start.offset := by
  obtain ⟨_, _, _, _, later, _⟩ := scans.split sole
  exact later.start_ge member

/-- A lexeme that forms no operator with what follows it. -/
def apart : Lexeme → Lexeme
  | .punct char _ => .punct char false
  | l => l

/-- What a cut behind a lexeme leaves of it is that lexeme. -/
theorem scans_sole {l : Lexeme} {c : Char} (sole : sole? l = some c) (closes : c ∈ ';' :: closers)
    (here : Position) : Scans here [c] [⟨apart l, ⟨here, here.next c⟩⟩] := by
  have one {l : Lexeme} {c : Char} (stuck : skipSeparators [c] = [c])
      (read : next? [c] = some ([l], [])) : Scans here [c] [⟨l, ⟨here, here.next c⟩⟩] :=
    .step (show [c] = [] ++ ([c] ++ []) from rfl) stuck read (.done rfl)
  unfold sole? at sole
  split at sole <;> cases sole
  · simp [closers] at closes
  · exact one rfl rfl
  · simp [closers] at closes
  · exact one rfl rfl
  · exact one rfl rfl

/-- Up to where it may be cut, a text has the lexemes that it has there. -/
theorem Scans.front {mid after : List PlacedLexeme} {l : Lexeme} {extent : Extent} {c : Char}
    (scans : Scans here cs (mid ++ ⟨l, extent⟩ :: after)) (sole : sole? l = some c)
    (closes : c ∈ ';' :: closers) :
    ∃ own post, cs = own ++ post ∧ extent.stop = here.after own ∧
      Scans here own (mid ++ [⟨apart l, extent⟩]) := by
  obtain ⟨inner, post, rfl, rfl, -, scansTo⟩ := scans.split sole
  have own := (scansTo.cut (.behind closes post)).append (scans_sole sole closes _)
  exact ⟨inner ++ [c], post, by simp, by simp [Position.after_append], own⟩

/-- The stretch of some lexemes has these lexemes. -/
theorem Scans.stretch {mid after : List PlacedLexeme} {first : PlacedLexeme} {l : Lexeme}
    {extent : Extent} {c : Char} (scans : Scans here cs (before ++ (mid ++ ⟨l, extent⟩ :: after)))
    (outside : ∀ l ∈ before.getLast?, l.lexeme ≠ .opening .bracket)
    (starts : (mid ++ [(⟨l, extent⟩ : PlacedLexeme)]).head? = some first)
    (opening : opens first.lexeme) (sole : sole? l = some c) (closes : c ∈ ';' :: closers) :
    ∃ pre own post, cs = pre ++ own ++ post ∧ first.extent.start = here.after pre ∧
      extent.stop = here.after (pre ++ own) ∧
      Scans first.extent.start own (mid ++ [⟨apart l, extent⟩]) := by
  have startsAll : (mid ++ (⟨l, extent⟩ : PlacedLexeme) :: after).head? = some first := by
    cases mid <;> simpa using starts
  obtain ⟨front, rest, rfl, -, behind⟩ := scans.part outside (by simpa [startsAll] using opening)
  obtain ⟨later, shape⟩ := List.head?_eq_some_iff.mp startsAll
  rw [shape] at behind
  obtain ⟨blank, rest, rfl, start, own⟩ := behind.from_first
  rw [← shape] at own
  obtain ⟨text, post, rfl, stop, own⟩ := own.front sole closes
  refine ⟨front ++ blank, text, post, by simp, ?_, ?_, own⟩
  · rw [start, Position.after_append]
  · rw [stop, start, ← Position.after_append, ← Position.after_append, List.append_assoc]

end MacroExpansion.Token

namespace MacroExpansion.TokenTree

open Token

variable {lexemes : List PlacedLexeme} {root ts us taken : List TokenTree} {t u : TokenTree}

/-! ## Trees in a row -/

/-- The lexeme that a tree ends with. -/
def lastLexeme : TokenTree → Lexeme
  | ident spelling _ => .ident spelling
  | punct char joint _ => .punct char joint
  | literal spelling _ => .literal spelling
  | group delimiter _ _ => .closing delimiter

/-- A tree that forms no operator with what follows it. -/
def apart : TokenTree → TokenTree
  | punct char _ extent => .punct char false extent
  | t => t

theorem Reads.split (reads : Reads lexemes (ts ++ us)) :
    ∃ front back, lexemes = front ++ back ∧ Reads front ts ∧ Reads back us := by
  induction ts generalizing lexemes with
  | nil => exact ⟨[], lexemes, rfl, .done, reads⟩
  | cons t ts ih =>
    cases reads with
    | leaf single later =>
      obtain ⟨front, back, rfl, early, late⟩ := ih later
      exact ⟨_ :: front, back, rfl, .leaf single early, late⟩
    | group within later =>
      obtain ⟨front, back, rfl, early, late⟩ := ih later
      exact ⟨_ :: (_ ++ _ :: front), back, by simp, .group within early, late⟩

/-- The lexeme that a tree starts with. -/
def firstLexeme : TokenTree → Lexeme
  | ident spelling _ => .ident spelling
  | punct char joint _ => .punct char joint
  | literal spelling _ => .literal spelling
  | group delimiter _ _ => .opening delimiter

theorem Reads.first (reads : Reads lexemes (t :: ts)) :
    ∃ place later, lexemes = ⟨t.firstLexeme, place⟩ :: later ∧ place.start = t.extent.start := by
  cases reads with
  | @leaf l t rest ts single later =>
    obtain ⟨lexeme, extent⟩ := l
    cases lexeme <;> cases single <;> exact ⟨extent, rest, rfl, rfl⟩
  | group => exact ⟨_, _, rfl, rfl⟩

/-- A tree ends with its last lexeme. -/
theorem Reads.single (reads : Reads lexemes [t]) :
    ∃ front place, lexemes = front ++ [⟨t.lastLexeme, place⟩] ∧ place.stop = t.extent.stop ∧
      Reads (front ++ [⟨Token.apart t.lastLexeme, place⟩]) [t.apart] := by
  cases reads with
  | @leaf l t rest ts one later =>
    obtain rfl := later.eq_nil
    obtain ⟨lexeme, extent⟩ := l
    cases lexeme <;> cases one <;> exact ⟨[], extent, rfl, rfl, .leaf rfl .done⟩
  | @group d first last inner rest content _ within later =>
    obtain rfl := later.eq_nil
    exact ⟨⟨.opening d, first⟩ :: inner, last, rfl, rfl, .group within .done⟩

/-- The last of some lexemes is the one that the last of their trees ends with. -/
theorem Reads.last_lexeme (reads : Reads lexemes ts) {l : PlacedLexeme}
    (last : lexemes.getLast? = some l) : ∃ t, ts.getLast? = some t ∧ l.lexeme = t.lastLexeme := by
  rcases List.eq_nil_or_concat' ts with rfl | ⟨front, t, rfl⟩
  · cases reads
    cases last
  · obtain ⟨_, final, rfl, -, readsLast⟩ := reads.split
    obtain ⟨inner, place, rfl, -⟩ := readsLast.single
    rw [← List.append_assoc, List.getLast?_concat] at last
    cases last
    exact ⟨t, List.getLast?_concat, rfl⟩

/-- The trees of a text, or those in braces among them, however deep. -/
inductive Level (root : List TokenTree) : List TokenTree → Prop where
  | top : Level root root
  | braces {ts content : List TokenTree} {extent : Extent} (outer : Level root ts)
      (member : .group .brace content extent ∈ ts) : Level root content

theorem Reads.of_level (reads : Reads lexemes root) (level : Level root ts) :
    ∃ before inner after, lexemes = before ++ (inner ++ after) ∧ Reads inner ts ∧
      ∀ l ∈ before.getLast?, l.lexeme ≠ .opening .bracket := by
  induction level with
  | top => exact ⟨[], lexemes, [], by simp, reads, by simp⟩
  | braces _ member ih =>
    obtain ⟨before, inner, after, rfl, within, -⟩ := ih
    obtain ⟨early, first, own, last, late, rfl, inside, -⟩ := within.of_mem member
    refine ⟨before ++ (early ++ [⟨.opening .brace, first⟩]), own,
      ⟨.closing .brace, last⟩ :: (late ++ after), by simp, inside, fun l final => ?_⟩
    simp only [← List.append_assoc, List.getLast?_append, List.getLast?_singleton, Option.some_or,
      Option.mem_def, Option.some.injEq] at final
    rw [← final]
    simp

/-- Some trees stand in a row in a text. -/
def Row (root taken : List TokenTree) : Prop :=
  ∃ front back, Level root (front ++ (taken ++ back))

/-- The lexemes of a row. -/
theorem Reads.of_row (reads : Reads lexemes root) (row : Row root taken) :
    ∃ before own after, lexemes = before ++ (own ++ after) ∧ Reads own taken ∧
      ∀ l ∈ before.getLast?, l.lexeme ≠ .opening .bracket := by
  obtain ⟨front, back, level⟩ := row
  obtain ⟨before, inner, after, rfl, within, outside⟩ := reads.of_level level
  obtain ⟨early, rest, rfl, readsFront, readsRest⟩ := within.split
  obtain ⟨own, late, rfl, readsOwn, -⟩ := readsRest.split
  refine ⟨before ++ early, own, late ++ after, by simp, readsOwn, fun l final => ?_⟩
  rw [List.getLast?_append] at final
  rcases Option.or_eq_some_iff.mp final with last | ⟨-, last⟩
  · obtain ⟨t, -, same⟩ := readsFront.last_lexeme last
    rw [same]
    cases t <;> simp [lastLexeme]
  · exact outside l last

variable {cs : List Char}

/-- Trees in a row take a stretch of the text. -/
theorem between_of_row (found : ofText? cs = some root) (row : Row root taken)
    (first : taken.head? = some t) (last : taken.getLast? = some u) :
    ∃ pre own post, cs = pre ++ own ++ post ∧ t.extent.start.offset = Text.byteSize pre ∧
      u.extent.stop.offset = Text.byteSize pre + Text.byteSize own := by
  obtain ⟨mark, code, lexemes, rfl, -, scans, reads⟩ := ofText?_eq_some found
  obtain ⟨before, own, after, rfl, readsOwn, -⟩ := reads.of_row row
  obtain ⟨later, rfl⟩ := List.head?_eq_some_iff.mp first
  obtain ⟨place, rest, rfl, start⟩ := readsOwn.first
  obtain ⟨m, member, stop⟩ := readsOwn.stop_of_mem (List.mem_of_getLast? last)
  rw [List.cons_append] at scans
  obtain ⟨pre, text, post, rfl, startsAt, stopsAt⟩ :=
    scans.between (m := m) (by simpa using .imp_right .inl (List.mem_cons.mp member))
  refine ⟨mark ++ pre, text, post, by simp, ?_, ?_⟩
  · rw [← start, startsAt]
    simp [Position.offset_after, Position.origin]
  · rw [← stop, stopsAt]
    simp [Position.offset_after, Position.origin, Nat.add_assoc]

/-- The stretch that trees in a row take has these trees, but for their places. -/
theorem stretch_of_row {c : Char} (found : ofText? cs = some root) (row : Row root (ts ++ [u]))
    (first : (ts ++ [u]).head? = some t) (opening : opens t.firstLexeme)
    (sole : sole? u.lastLexeme = some c) (closes : c ∈ ';' :: closers) :
    ∃ pre own post alone, cs = pre ++ own ++ post ∧ t.extent.start.offset = Text.byteSize pre ∧
      u.extent.stop.offset = Text.byteSize pre + Text.byteSize own ∧
      ofText? own = some alone ∧ unplacedAll alone = unplacedAll (ts ++ [u.apart]) := by
  obtain ⟨mark, code, lexemes, rfl, -, scans, reads⟩ := ofText?_eq_some found
  obtain ⟨before, own, after, rfl, readsOwn, outside⟩ := reads.of_row row
  obtain ⟨later, shape⟩ := List.head?_eq_some_iff.mp first
  obtain ⟨firstPlace, rest, startsOwn, start⟩ := (shape ▸ readsOwn).first
  obtain ⟨early, last, rfl, readsEarly, readsLast⟩ := readsOwn.split
  obtain ⟨inner, place, rfl, stop, readsApart⟩ := readsLast.single
  have startsAll : (early ++ inner ++ [(⟨u.lastLexeme, place⟩ : PlacedLexeme)]).head? =
      some ⟨t.firstLexeme, firstPlace⟩ := by
    rw [List.append_assoc, startsOwn, List.head?_cons]
  have row : Scans (Position.origin.after mark) code
      (before ++ (early ++ inner ++ ⟨u.lastLexeme, place⟩ :: after)) := by
    simpa using scans
  obtain ⟨pre, text, post, rfl, startsAt, stopsAt, scansOwn⟩ :=
    row.stretch outside startsAll opening sole closes
  obtain ⟨moved, scansMoved, same⟩ := scansOwn.relocate .origin
  rw [List.append_assoc] at same
  obtain ⟨alone, readsMoved, alike⟩ := (readsEarly.append readsApart).relocate same
  refine ⟨mark ++ pre, text, post, alone, by simp, ?_, ?_, ?_, unplacedAll_of_moved alike⟩
  · rw [← start, startsAt]
    simp [Position.offset_after, Position.origin]
  · rw [← stop, stopsAt]
    simp [Position.offset_after, Position.origin, Nat.add_assoc]
  · have bare : ([] : List Char) = [] ∨ [] = [Text.byteOrderMark] := .inl rfl
    exact ofText?_of_scans bare scansMoved readsMoved

/-- What a text starts with has the trees that it has there. -/
theorem front_of_ofText? {c : Char} {back : List TokenTree}
    (found : ofText? cs = some (ts ++ u :: back)) (sole : sole? u.lastLexeme = some c)
    (closes : c ∈ ';' :: closers) :
    ∃ own post alone, cs = own ++ post ∧ u.extent.stop.offset = Text.byteSize own ∧
      ofText? own = some alone ∧ unplacedAll alone = unplacedAll (ts ++ [u.apart]) := by
  obtain ⟨mark, code, lexemes, rfl, marked, scans, reads⟩ := ofText?_eq_some found
  rw [← List.singleton_append] at reads
  obtain ⟨before, rest, rfl, readsFront, readsRest⟩ := reads.split
  obtain ⟨last, after, rfl, readsLast, -⟩ := readsRest.split
  obtain ⟨inner, place, rfl, stop, readsApart⟩ := readsLast.single
  have row : Scans (Position.origin.after mark) code
      ((before ++ inner) ++ ⟨u.lastLexeme, place⟩ :: after) := by
    simpa using scans
  obtain ⟨own, post, rfl, stopsAt, scansOwn⟩ := row.front sole closes
  rw [List.append_assoc] at scansOwn
  refine ⟨mark ++ own, post, _, by simp, ?_,
    ofText?_of_scans marked scansOwn (readsFront.append readsApart), rfl⟩
  rw [← stop, stopsAt]
  simp [Position.offset_after, Position.origin]

/-- A tree where the text may be cut stops before the trees after it start. -/
theorem stop_le_start_of_ofText? {c : Char}
    (found : ofText? cs = some (ts ++ u :: (us ++ t :: taken)))
    (sole : sole? u.lastLexeme = some c) : u.extent.stop.offset ≤ t.extent.start.offset := by
  obtain ⟨mark, code, lexemes, -, -, scans, reads⟩ := ofText?_eq_some found
  rw [← List.singleton_append] at reads
  obtain ⟨before, rest, rfl, -, readsRest⟩ := reads.split
  obtain ⟨own, later, rfl, readsOwn, readsLater⟩ := readsRest.split
  obtain ⟨inner, place, rfl, stop, -⟩ := readsOwn.single
  obtain ⟨between, last, rfl, -, readsLast⟩ := readsLater.split
  obtain ⟨firstPlace, more, rfl, start⟩ := readsLast.first
  have row : Scans (Position.origin.after mark) code ((before ++ inner) ++ ⟨u.lastLexeme, place⟩ ::
      (between ++ ⟨t.firstLexeme, firstPlace⟩ :: more)) := by
    simpa using scans
  have ordered := row.stop_le_start sole (List.mem_append_right between List.mem_cons_self)
  rwa [stop, start] at ordered

end MacroExpansion.TokenTree
