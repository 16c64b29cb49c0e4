import Mathlib.Data.List.Forall2
import MacroExpansion.Proofs.Token.Lexeme

/-!
# Scanning a text that is cut off

A scan goes through a text lexeme by lexeme; `Scans` tells which lexemes a text has, without a bound
on the steps. Main statement: where a parenthesis, a brace or a semicolon is among the lexemes, it
is a character of the text at the place that is told, what follows it is scanned on from there, and
what stands before it is scanned to the same lexemes if the text is cut off there.
-/
namespace MacroExpansion

/-- A stretch that is counted from another place, as far as bytes go. -/
structure Extent.Moved (here there : Nat) (x y : Extent) : Prop where
  start : y.start.offset + here = x.start.offset + there
  stop : y.stop.offset + here = x.stop.offset + there

/-- The same lexeme in a text that starts in another place. -/
structure PlacedLexeme.Moved (here there : Nat) (l m : PlacedLexeme) : Prop where
  lexeme : m.lexeme = l.lexeme
  extent : l.extent.Moved here there m.extent

end MacroExpansion

namespace MacroExpansion.Token

open Text Lexeme

/-- The lexemes of a text that starts at `here`. -/
inductive Scans : (here : Position) → List Char → List PlacedLexeme → Prop where
  | done {here : Position} {cs : List Char} (nothing : skipSeparators cs = []) : Scans here cs []
  /-- After separators, something is taken and then the rest is scanned. -/
  | step {here : Position} {cs blank taken rest : List Char} {lexemes : List Lexeme}
      {later : List PlacedLexeme} (text : cs = blank ++ (taken ++ rest))
      (skipped : skipSeparators cs = taken ++ rest)
      (read : next? (taken ++ rest) = some (lexemes, rest))
      (after : Scans ((here.after blank).after taken) rest later) :
      Scans here cs (lexemes.map (fun lexeme =>
        ⟨lexeme, ⟨here.after blank, (here.after blank).after taken⟩⟩) ++ later)

theorem next?_nil : next? [] = none := rfl

theorem consumed_of_append {cs taken rest : List Char} (text : taken ++ rest = cs) :
    consumed cs rest = taken := by
  rw [← text, consumed_append]

/-- What a bounded scan finds. -/
theorem scans_of_scanWithin {n : Nat} {here : Position} {cs : List Char} {found : List PlacedLexeme}
    (scanned : scanWithin n here cs = some found) : Scans here cs found := by
  induction n generalizing here cs found with
  | zero => cases scanned
  | succ n ih =>
    rw [scanWithin] at scanned
    dsimp only at scanned
    obtain ⟨blank, text⟩ := skipSeparators_suffix cs
    rw [consumed_of_append text] at scanned
    split at scanned
    next empty =>
      cases scanned
      exact .done (List.isEmpty_iff.mp empty)
    next =>
      split at scanned
      next => cases scanned
      next lexemes rest read =>
        obtain ⟨taken, behind⟩ := (takes_next? read).suffix
        rw [consumed_of_append behind] at scanned
        obtain ⟨later, more, rfl⟩ := Option.map_eq_some_iff.mp scanned
        rw [← behind] at text read
        exact .step text.symm behind.symm read (ih more)

/-- A bound of one step more than there are characters is enough. -/
theorem Scans.scanWithin {here : Position} {cs : List Char} {found : List PlacedLexeme}
    (scans : Scans here cs found) {n : Nat} (enough : cs.length < n) :
    scanWithin n here cs = some found := by
  induction scans generalizing n with
  | done nothing =>
    cases n with
    | zero => omega
    | succ n => simp [Lexeme.scanWithin, nothing]
  | @step here cs blank taken rest lexemes later text skipped read _ ih =>
    cases n with
    | zero => omega
    | succ n =>
      have short := (takes_next? read).length_lt
      have length := congrArg List.length text
      simp only [List.length_append] at length short
      have filled : (taken ++ rest).isEmpty = false := by
        cases found : taken ++ rest with
        | nil =>
          rw [found, next?_nil] at read
          cases read
        | cons c cs => rfl
      have more := ih (n := n) (by omega)
      rw [Lexeme.scanWithin, skipped]
      simp only [filled, read, consumed_of_append text.symm, consumed_append, more]
      rfl

/-- Separators in front of a text change nothing. -/
theorem Scans.after_separators {here : Position} {front cs : List Char}
    {found : List PlacedLexeme} (skipped : skipSeparators (front ++ cs) = skipSeparators cs)
    (scans : Scans (here.after front) cs found) : Scans here (front ++ cs) found := by
  cases scans with
  | done nothing => exact .done (skipped.trans nothing)
  | @step _ _ blank taken rest lexemes later text stuck read after =>
    have place (p : Position) : p.after (front ++ blank) = (p.after front).after blank :=
      p.after_append front blank
    rw [← place] at after ⊢
    exact .step (by rw [text, List.append_assoc]) (skipped.trans stuck) read after

/-- The lexemes of a text that stands in front of `k`, up to there. -/
inductive ScansTo (k : List Char) :
    (here : Position) → List Char → List PlacedLexeme → Prop where
  | done {here : Position} {xs : List Char}
      (nothing : skipSeparators (xs ++ k) = skipSeparators k) : ScansTo k here xs []
  | step {here : Position} {xs blank taken rest : List Char} {lexemes : List Lexeme}
      {later : List PlacedLexeme} (text : xs = blank ++ (taken ++ rest))
      (skipped : skipSeparators (xs ++ k) = taken ++ (rest ++ k))
      (read : next? (taken ++ (rest ++ k)) = some (lexemes, rest ++ k))
      (after : ScansTo k ((here.after blank).after taken) rest later) :
      ScansTo k here xs (lexemes.map (fun lexeme =>
        ⟨lexeme, ⟨here.after blank, (here.after blank).after taken⟩⟩) ++ later)

/-- What is scanned up to some text is followed by what that text has. -/
theorem ScansTo.append {k : List Char} {here : Position} {xs : List Char}
    {found later : List PlacedLexeme} (scans : ScansTo k here xs found)
    (behind : Scans (here.after xs) k later) : Scans here (xs ++ k) (found ++ later) := by
  induction scans with
  | done nothing => exact .after_separators nothing behind
  | @step here xs blank taken rest lexemes more text skipped read _ ih =>
    rw [text] at behind
    simp only [Position.after_append] at behind
    rw [List.append_assoc]
    exact .step (by rw [text]; simp) skipped read (ih behind)

/-- Something comes next, if anything does. -/
theorem next?_some {cs rest : List Char} {lexemes : List Lexeme}
    (read : next? cs = some (lexemes, rest)) :
    (∃ doc, lexemes = ofDocComment doc) ∨ ∃ l, lexemes = [l] ∧ plain? cs = some (l, rest) := by
  unfold next? at read
  split at read
  next doc _ =>
    split at read
    · cases read
    · cases read
      exact .inl ⟨doc, rfl⟩
  next =>
    obtain ⟨⟨l, _⟩, found, same⟩ := Option.map_eq_some_iff.mp read
    cases same
    exact .inr ⟨l, rfl, found⟩

theorem ofDocComment_last (doc : DocComment) :
    (ofDocComment doc).getLast? = some (.closing .bracket) := by
  unfold ofDocComment
  cases doc.inner <;> rfl

/-! ## Where a text is cut off -/

/-- The character that a lexeme is if no doc comment stands for it and the text may be cut there: a
parenthesis, a brace or a semicolon. -/
def sole? : Lexeme → Option Char
  | .opening .paren => some '('
  | .closing .paren => some ')'
  | .opening .brace => some '{'
  | .closing .brace => some '}'
  | .punct ';' _ => some ';'
  | _ => none

theorem sole?_delimiter? {cs rest : List Char} {l : Lexeme} {c : Char}
    (read : delimiter? cs = some (l, rest)) (sole : sole? l = some c) : cs = c :: rest := by
  unfold delimiter? at read
  split at read <;> cases read <;> cases sole <;> rfl

theorem sole?_punct? {cs rest : List Char} {l : Lexeme} {c : Char}
    (read : punct? cs = some (l, rest)) (sole : sole? l = some c) : cs = c :: rest := by
  have same {d : Char} {joint : Bool} (sole : sole? (.punct d joint) = some c) : c = d := by
    by_cases semicolon : d = ';'
    · subst semicolon
      cases sole
      rfl
    · simp [sole?, semicolon] at sole
  unfold punct? at read
  split at read
  · split at read <;> cases read
    rw [same sole]
  · split at read <;> cases read
    rw [same sole]
  · cases read

theorem sole?_name? {cs rest : List Char} {l : Lexeme} (read : name? cs = some (l, rest)) :
    sole? l = none := by
  unfold name? at read
  split at read
  · cases read
  · obtain ⟨_, _, same⟩ := Option.map_eq_some_iff.mp read
    cases same
    rfl

theorem sole?_literal? {cs rest : List Char} {l : Lexeme} (read : literal? cs = some (l, rest)) :
    sole? l = none := by
  obtain ⟨_, _, same⟩ := Option.map_eq_some_iff.mp read
  cases same
  rfl

theorem sole?_plain? {cs rest : List Char} {l : Lexeme} {c : Char}
    (read : plain? cs = some (l, rest)) (sole : sole? l = some c) : cs = c :: rest := by
  unfold plain? at read
  split at read
  · cases read
    cases sole
  rcases Option.or_eq_some_iff.mp read with read | ⟨_, read⟩
  · rcases Option.or_eq_some_iff.mp read with read | ⟨_, read⟩
    · rcases Option.or_eq_some_iff.mp read with read | ⟨_, read⟩
      · exact sole?_delimiter? read sole
      · rw [sole?_literal? read] at sole
        cases sole
    · exact sole?_punct? read sole
  · rw [sole?_name? read] at sole
    cases sole

theorem bracket_of_plain? {cs rest : List Char}
    (read : plain? cs = some (.opening .bracket, rest)) : cs = '[' :: rest := by
  unfold plain? at read
  split at read
  · cases read
  rcases Option.or_eq_some_iff.mp read with read | ⟨_, read⟩
  · rcases Option.or_eq_some_iff.mp read with read | ⟨_, read⟩
    · rcases Option.or_eq_some_iff.mp read with read | ⟨_, read⟩
      · unfold delimiter? at read
        split at read <;> cases read
        rfl
      · obtain ⟨_, _, same⟩ := Option.map_eq_some_iff.mp read
        cases same
    · unfold punct? at read
      split at read
      · split at read <;> cases read
      · split at read <;> cases read
      · cases read
  · unfold name? at read
    split at read
    · cases read
    · obtain ⟨_, _, same⟩ := Option.map_eq_some_iff.mp read
      cases same

/-- Such a lexeme comes alone, and is a character of the text. -/
theorem sole?_next? {cs rest : List Char} {lexemes : List Lexeme} {l : Lexeme} {c : Char}
    (read : next? cs = some (lexemes, rest)) (member : l ∈ lexemes) (sole : sole? l = some c) :
    lexemes = [l] ∧ cs = c :: rest := by
  rcases next?_some read with ⟨doc, rfl⟩ | ⟨other, rfl, found⟩
  · have soleless : ∀ l ∈ ofDocComment doc, sole? l = none := by
      unfold ofDocComment
      cases doc.inner <;> simp [sole?]
    rw [soleless l member] at sole
    cases sole
  · rw [List.mem_singleton] at member
    subst member
    exact ⟨rfl, sole?_plain? found sole⟩

theorem skipSeparators_stop {c : Char} (stop : c ∈ ';' :: closers) (rest : List Char) :
    skipSeparators (c :: rest) = c :: rest := by
  have each : (';' :: closers).all fun c => c ≠ '/' && !isSeparator c := by decide
  have plain := List.all_eq_true.mp each c stop
  rw [Bool.and_eq_true, decide_eq_true_eq, Bool.not_eq_true'] at plain
  exact skipSeparators_of_none (separatorStep?_plain plain.1 plain.2 rest)

/-- What is scanned up to a cut is scanned up to what the cut leaves. -/
theorem ScansTo.cut {full cut : List Char} {here : Position} {xs : List Char}
    {found : List PlacedLexeme} (cuts : Cuts closers full cut)
    (scans : ScansTo full here xs found) :
    ScansTo cut here xs found := by
  induction scans with
  | @done here xs nothing =>
    obtain ⟨c, post, member, rfl⟩ := cuts.start
    rw [skipSeparators_stop member] at nothing
    have left : skipSeparators (xs ++ cut) = [] ++ cut := skipSeparators_cut cuts nothing
    rw [List.nil_append] at left
    have still : skipSeparators cut = cut := by
      rw [← left]
      exact skipSeparators_of_none (separatorStep?_skipSeparators _)
    exact .done (left.trans still.symm)
  | @step here xs blank taken rest lexemes later text skipped read _ ih =>
    rw [← List.append_assoc] at skipped read
    refine .step text ?_ ?_ ih
    · rw [← List.append_assoc]
      exact skipSeparators_cut cuts skipped
    · rw [← List.append_assoc]
      exact next?_cut cuts read

/-- Where such a lexeme is among those of a text, it stands in the text: what stands before it is
scanned up to it, and what follows it is scanned on. -/
theorem Scans.split {here : Position} {cs : List Char} {before after : List PlacedLexeme}
    {l : Lexeme} {c : Char} {extent : Extent}
    (scans : Scans here cs (before ++ ⟨l, extent⟩ :: after)) (sole : sole? l = some c) :
    ∃ front rest, cs = front ++ c :: rest ∧
      extent = ⟨here.after front, (here.after front).next c⟩ ∧ Scans extent.stop rest after ∧
      ScansTo (c :: rest) here front before := by
  generalize all : before ++ ⟨l, extent⟩ :: after = found at scans
  induction scans generalizing before with
  | done nothing =>
    rw [List.append_eq_nil_iff] at all
    cases all.2
  | @step here cs blank taken rest lexemes later text skipped read scans ih =>
    -- it is among what is scanned later, or among what was taken here
    have inLater (more : List PlacedLexeme)
        (made : before = lexemes.map (fun lexeme =>
          ⟨lexeme, ⟨here.after blank, (here.after blank).after taken⟩⟩) ++ more)
        (same : more ++ ⟨l, extent⟩ :: after = later) :
        ∃ front rest, cs = front ++ c :: rest ∧
          extent = ⟨here.after front, (here.after front).next c⟩ ∧ Scans extent.stop rest after ∧
          ScansTo (c :: rest) here front before := by
      obtain ⟨front, rest', behind, place, next, alone⟩ := ih same
      have whole : cs = (blank ++ (taken ++ front)) ++ c :: rest' := by
        rw [text, behind]
        simp
      refine ⟨blank ++ (taken ++ front), rest', whole, ?_, next, ?_⟩
      · rw [place, Position.after_append, Position.after_append]
      · rw [behind] at skipped read
        rw [whole] at skipped
        rw [made]
        exact .step rfl skipped read alone
    rcases List.append_eq_append_iff.mp all with ⟨more, made, same⟩ | ⟨more, made, same⟩
    · cases more with
      | nil =>
        rw [List.append_nil] at made
        exact inLater [] (by rw [List.append_nil, made]) same
      | cons first more =>
        obtain ⟨rfl, rfl⟩ := List.cons.inj same
        have among : (⟨l, extent⟩ : PlacedLexeme) ∈ lexemes.map (fun lexeme =>
            ⟨lexeme, ⟨here.after blank, (here.after blank).after taken⟩⟩) := by
          rw [made]
          simp
        obtain ⟨other, member, placed⟩ := List.mem_map.mp among
        cases placed
        obtain ⟨rfl, starts⟩ := sole?_next? read member sole
        obtain rfl : taken = [c] := List.append_cancel_right starts
        have alone : before = [] ∧ more = [] := by
          have length := congrArg List.length made
          simp only [List.length_map, List.length_append, List.length_cons, List.length_nil]
            at length
          exact ⟨List.length_eq_zero_iff.mp (by omega), List.length_eq_zero_iff.mp (by omega)⟩
        obtain ⟨rfl, rfl⟩ := alone
        refine ⟨blank, rest, text, rfl, scans, .done ?_⟩
        subst text
        have left : skipSeparators (blank ++ c :: rest) = c :: rest := skipped
        rw [left, ← left]
        exact (skipSeparators_of_none (separatorStep?_skipSeparators _)).symm
    · exact inLater more made same.symm

/-- The lexemes of a text are the same wherever it starts. -/
theorem Scans.relocate {here : Position} {cs : List Char} {found : List PlacedLexeme}
    (scans : Scans here cs found) (there : Position) :
    ∃ moved, Scans there cs moved ∧
      List.Forall₂ (PlacedLexeme.Moved here.offset there.offset) found moved := by
  induction scans generalizing there with
  | done nothing => exact ⟨[], .done nothing, .nil⟩
  | @step here cs blank taken rest lexemes later text skipped read _ ih =>
    obtain ⟨moved, scans, same⟩ := ih ((there.after blank).after taken)
    have shifted (l : Lexeme) : PlacedLexeme.Moved here.offset there.offset
        ⟨l, ⟨here.after blank, (here.after blank).after taken⟩⟩
        ⟨l, ⟨there.after blank, (there.after blank).after taken⟩⟩ := by
      refine ⟨rfl, ?_, ?_⟩ <;> simp only [Position.offset_after] <;> omega
    have behind : List.Forall₂ (PlacedLexeme.Moved here.offset there.offset) later moved := by
      refine same.imp fun _ _ same => ⟨same.lexeme, ?_, ?_⟩
      · have start := same.extent.start
        simp only [Position.offset_after] at start
        omega
      · have stop := same.extent.stop
        simp only [Position.offset_after] at stop
        omega
    refine ⟨_, .step text skipped read scans, List.rel_append ?_ behind⟩
    rw [List.forall₂_map_left_iff, List.forall₂_map_right_iff]
    exact List.forall₂_same.mpr fun l _ => shifted l

/-! ## Whole texts -/

/-- A text is scanned from its start, or from after a byte-order mark. -/
theorem scans_of_scan? {cs : List Char} {found : List PlacedLexeme}
    (scanned : scan? cs = some found) :
    ∃ mark code, cs = mark ++ code ∧ (mark = [] ∨ mark = [byteOrderMark]) ∧
      Scans (Position.origin.after mark) code found := by
  unfold scan? at scanned
  split at scanned
  · cases scanned
    exact ⟨[], [], rfl, .inl rfl, .done rfl⟩
  next c rest =>
    split at scanned
    next marked =>
      subst marked
      exact ⟨[byteOrderMark], rest, rfl, .inr rfl, scans_of_scanWithin scanned⟩
    next => exact ⟨[], c :: rest, rfl, .inl rfl, scans_of_scanWithin scanned⟩

/-- An empty text has no lexemes. -/
theorem Scans.eq_nil {here : Position} {found : List PlacedLexeme} (scans : Scans here [] found) :
    found = [] := by
  cases scans with
  | done => rfl
  | step text skipped read _ =>
    have empty := (List.append_eq_nil_iff.mp text.symm).2
    rw [empty, next?_nil] at read
    cases read

/-- A byte-order mark is no lexeme. -/
theorem next?_mark (cs : List Char) : next? (byteOrderMark :: cs) = none := by
  have letter : isIdentifierStart byteOrderMark = false := by decide +kernel
  have undocumented : docComment? (byteOrderMark :: cs) = none := rfl
  have readable : unreadable.isPrefixOf (byteOrderMark :: cs) = false := rfl
  have undelimited : delimiter? (byteOrderMark :: cs) = none := rfl
  have quoted : afterQuotedLiteral? (byteOrderMark :: cs) = none := rfl
  have number : afterNumber? (byteOrderMark :: cs) = none := rfl
  have punctuated : punct? (byteOrderMark :: cs) = none := rfl
  have identifier : afterName? (byteOrderMark :: cs) = none := by
    change afterIdentifier? (byteOrderMark :: cs) = none
    rw [afterIdentifier?, letter]
    rfl
  simp [next?, undocumented, plain?, readable, undelimited, literal?, afterLiteral?, quoted, number,
    punctuated, name?, identifier]

theorem not_scans_mark {here : Position} {cs : List Char} {found : List PlacedLexeme} :
    ¬ Scans here (byteOrderMark :: cs) found := by
  -- it separates nothing either
  have stays : skipSeparators (byteOrderMark :: cs) = byteOrderMark :: cs :=
    skipSeparatorsWithin_of_none rfl _
  intro scans
  cases scans with
  | done nothing =>
    rw [stays] at nothing
    cases nothing
  | step text skipped read _ =>
    rw [← skipped, stays, next?_mark] at read
    cases read

/-- The lexemes of a text that starts at the origin are those of a whole text. -/
theorem Scans.scan? {cs : List Char} {found : List PlacedLexeme}
    (scans : Scans .origin cs found) : scan? cs = some found := by
  unfold Lexeme.scan?
  split
  · rw [scans.eq_nil]
  next c rest =>
    split
    next mark =>
      subst mark
      exact absurd scans not_scans_mark
    next => exact scans.scanWithin (Nat.lt_succ_self _)

/-- A byte-order mark in front of a text is passed over. -/
theorem Scans.scan?_mark {cs : List Char} {found : List PlacedLexeme}
    (scans : Scans (Position.origin.next byteOrderMark) cs found) :
    Lexeme.scan? (byteOrderMark :: cs) = some found := by
  rw [Lexeme.scan?, if_pos rfl]
  exact scans.scanWithin (Nat.lt_succ_self _)

end MacroExpansion.Token
