import MacroExpansion.Definition.Shape
import MacroExpansion.Proofs.Token.Forest

/-!
# What pieces come from

Pieces are read token by token, and `step` is what one token does. Main statements: the pieces of
some tokens hang on the places of the tokens only in the places that they tell, and a repetition
comes from parentheses of its own level, which have the pieces in it.
-/
namespace MacroExpansion.Piece

variable {μ : Type}

/-- The pieces that a token completes, and what is expected after it. -/
def step (spelling : Spelling μ) (t : TokenTree) :
    Expectation μ → Except SyntaxError (List (Piece μ) × Expectation μ)
  | .piece =>
    match t with
    | .punct '$' _ _ => .ok ([], .dollar)
    | .group _ _ _ => (within spelling t).map fun content => ([.group content], .piece)
    | _ => .ok ([.token t], .piece)
  | .dollar =>
    match t with
    | .group .paren _ parentheses =>
      (within spelling t).map fun content => ([], .operator content parentheses)
    | .ident text _ =>
      match spelling with
      | .named make => .ok ([.metavariable (make (.ofSpelling text))], .piece)
      | .typed make => .ok ([], .colon (make (.ofSpelling text)))
    | _ => .error .unexpected
  | .colon make =>
    match t with
    | .punct ':' _ _ => .ok ([], .kind make)
    | _ => .error .unexpected
  | .kind make =>
    match t with
    | .ident text _ =>
      if Grammar.reserved.contains text then .error .unexpected
      else
        match FragmentKind.ofText? text with
        | some kind => .ok ([.metavariable (make kind)], .piece)
        | none => .error (.unknownFragment text)
    | _ => .error .unexpected
  | .operator content parentheses =>
    match t with
    | .punct c _ _ =>
      if repetitionOperators.contains c then .ok ([.repetition content parentheses], .piece)
      else .ok ([], .operator content parentheses)
    | .group _ _ _ => .error .groupSeparator
    | _ => .ok ([], .operator content parentheses)

/-- A token that completes no piece leaves what is read later as it is. -/
theorem read_later (attempt : Except SyntaxError (List (Piece μ))) :
    attempt = (do return [] ++ (← attempt)) := by
  cases attempt <;> rfl

/-- Pieces are read token by token. -/
theorem read_cons (spelling : Spelling μ) (expected : Expectation μ) (t : TokenTree)
    (rest : List TokenTree) :
    read spelling expected (t :: rest) = (do
      let (given, next) ← step spelling t expected
      return given ++ (← read spelling next rest)) := by
  fun_cases step spelling t expected with
  | case1 | case6 | case8 => exact read_later _
  | case2 _ d content extent =>
    rw [read]
    cases within spelling (.group d content extent) <;> rfl
  | case4 _ content parentheses =>
    rw [read]
    cases within spelling (.group .paren content parentheses) with
    | error cause => rfl
    | ok inside => exact read_later _
  | case5 | case16 => rfl
  | case3 | case7 | case9 | case13 => simp only [read, *]; rfl
  | case10 _ _ _ _ reserved => rw [read, if_pos reserved]; rfl
  | case11 _ _ _ _ free kind named => rw [read, if_neg free, named]; rfl
  | case12 _ _ _ _ free unnamed => rw [read, if_neg free, unnamed]; rfl
  | case14 _ _ _ _ _ _ operator => rw [read, if_pos operator]; rfl
  | case15 _ _ _ _ _ _ separator => rw [read, if_neg separator]; exact read_later _
  | case17 => simp only [read, *]; exact read_later _

theorem of_read_cons {spelling : Spelling μ} {expected : Expectation μ} {t : TokenTree}
    {rest : List TokenTree} {pieces : List (Piece μ)}
    (h : read spelling expected (t :: rest) = .ok pieces) :
    ∃ given next later, step spelling t expected = .ok (given, next) ∧
      read spelling next rest = .ok later ∧ pieces = given ++ later := by
  rw [read_cons] at h
  obtain ⟨⟨given, next⟩, stepped, h⟩ := Attempt.of_bind_ok h
  obtain ⟨later, read, h⟩ := Attempt.of_bind_ok h
  exact ⟨given, next, later, stepped, read, (Except.ok.inj h).symm⟩

/-! ## Pieces without their places -/

mutual

/-- A piece with nothing told of where it stands. -/
def unplaced : Piece μ → Piece μ
  | token t => .token t.unplaced
  | group content => .group (unplacedAll content)
  | metavariable m => .metavariable m
  | repetition content _ => .repetition (unplacedAll content) ⟨.origin, .origin⟩

def unplacedAll : List (Piece μ) → List (Piece μ)
  | [] => []
  | p :: ps => p.unplaced :: unplacedAll ps

end

/-- What is expected, with nothing told of where the tokens read stand. -/
def Expectation.unplaced : Expectation μ → Expectation μ
  | .operator content _ => .operator (unplacedAll content) ⟨.origin, .origin⟩
  | expected => expected

theorem unplacedAll_append (ps qs : List (Piece μ)) :
    unplacedAll (ps ++ qs) = unplacedAll ps ++ unplacedAll qs := by
  induction ps with
  | nil => rfl
  | cons p ps ih => simp [unplacedAll, ih]

/-- One token does the same wherever it stands. -/
theorem step_unplaced {spelling : Spelling μ} {t : TokenTree}
    (inside : within spelling t.unplaced = (within spelling t).map unplacedAll)
    (expected : Expectation μ) :
    step spelling t.unplaced expected.unplaced =
      (step spelling t expected).map fun (given, next) => (unplacedAll given, next.unplaced) := by
  cases t with
  | ident text extent =>
    cases expected with
    | dollar => cases spelling <;> rfl
    | kind make =>
      simp only [step, TokenTree.unplaced, Expectation.unplaced]
      split
      · rfl
      · split <;> rfl
    | _ => rfl
  | punct c joint extent =>
    cases expected with
    | piece =>
      by_cases sigil : c = '$'
      · subst sigil
        rfl
      · simp [step, TokenTree.unplaced, Expectation.unplaced, sigil, Except.map, unplacedAll,
          unplaced]
    | colon make =>
      by_cases mark : c = ':'
      · subst mark
        rfl
      · simp [step, TokenTree.unplaced, Expectation.unplaced, mark, Except.map]
    | operator content parentheses =>
      simp only [step, TokenTree.unplaced, Expectation.unplaced]
      split <;> rfl
    | _ => rfl
  | literal spelling extent => cases expected <;> rfl
  | group d content extent =>
    cases expected with
    | piece =>
      change (within spelling (TokenTree.group d content extent).unplaced).map _ = _
      rw [inside, step]
      cases within spelling (.group d content extent) <;> rfl
    | dollar =>
      cases d with
      | paren =>
        change (within spelling (TokenTree.group .paren content extent).unplaced).map _ = _
        rw [inside, step]
        cases within spelling (.group .paren content extent) <;> rfl
      | _ => rfl
    | _ => rfl

mutual

theorem within_unplaced (spelling : Spelling μ) (t : TokenTree) :
    within spelling t.unplaced = (within spelling t).map unplacedAll := by
  match t with
  | .group _ content _ => exact read_unplaced spelling .piece content
  | .ident _ _ | .punct _ _ _ | .literal _ _ => rfl

/-- The pieces of some tokens hang on their places only in what they tell of them. -/
theorem read_unplaced (spelling : Spelling μ) (expected : Expectation μ)
    (tokens : List TokenTree) :
    read spelling expected.unplaced (TokenTree.unplacedAll tokens) =
      (read spelling expected tokens).map unplacedAll := by
  match tokens with
  | [] => cases expected <;> rfl
  | t :: rest =>
    rw [TokenTree.unplacedAll, read_cons, read_cons,
      step_unplaced (within_unplaced spelling t) expected]
    cases step spelling t expected with
    | error cause => rfl
    | ok result =>
      obtain ⟨given, next⟩ := result
      have later := read_unplaced spelling next rest
      change (do return unplacedAll given ++
        (← read spelling next.unplaced (TokenTree.unplacedAll rest))) =
        Except.map unplacedAll (do return given ++ (← read spelling next rest))
      rw [later]
      cases read spelling next rest with
      | error cause => rfl
      | ok pieces => exact congrArg Except.ok (unplacedAll_append given pieces).symm

end

/-- Tokens that differ in their places only have pieces that differ in their places only. -/
theorem ofTokens_alike {spelling : Spelling μ} {tokens others : List TokenTree}
    {pieces : List (Piece μ)}
    (alike : TokenTree.unplacedAll others = TokenTree.unplacedAll tokens)
    (read : ofTokens spelling tokens = .ok pieces) :
    ∃ pieces', ofTokens spelling others = .ok pieces' ∧
      unplacedAll pieces' = unplacedAll pieces := by
  have same := read_unplaced spelling .piece others
  rw [alike, read_unplaced spelling .piece tokens, show Piece.read _ _ _ = _ from read] at same
  cases found : Piece.read spelling .piece others with
  | error cause =>
    rw [found] at same
    cases same
  | ok pieces' =>
    rw [found] at same
    exact ⟨pieces', found, (Except.ok.inj same).symm⟩

/-! ## Where repetitions come from -/

/-- A repetition is completed by the operator after its parentheses. -/
theorem of_step {spelling : Spelling μ} {t : TokenTree} {expected next : Expectation μ}
    {given : List (Piece μ)} (h : step spelling t expected = .ok (given, next)) :
    (∀ content parentheses, .repetition content parentheses ∈ given →
      expected = .operator content parentheses) ∧
    ∀ content parentheses, next = .operator content parentheses →
      expected = .operator content parentheses ∨ ∃ inside, t = .group .paren inside parentheses ∧
        ofTokens spelling inside = .ok content := by
  unfold step at h
  cases expected with
  | piece =>
    simp only at h
    split at h
    next => cases h; simp
    next =>
      obtain ⟨content, _, same⟩ := Attempt.of_map_ok h
      cases same
      simp
    next => cases h; simp
  | dollar =>
    simp only at h
    split at h
    next inside parentheses =>
      obtain ⟨content, found, same⟩ := Attempt.of_map_ok h
      cases same
      refine ⟨by simp, fun _ _ same => .inr ⟨inside, ?_⟩⟩
      cases same
      exact ⟨rfl, found⟩
    next => split at h <;> cases h <;> simp
    next => cases h
  | colon make =>
    simp only at h
    split at h <;> cases h
    simp
  | kind make =>
    simp only at h
    split at h
    next =>
      split at h
      next => cases h
      next =>
        split at h <;> cases h
        simp
    next => cases h
  | operator content parentheses =>
    simp only at h
    split at h
    next => split at h <;> cases h <;> simp
    next => cases h
    next => cases h; simp

/-- A repetition comes from parentheses among the tokens, or was begun before them. -/
theorem of_mem_read {spelling : Spelling μ} {tokens : List TokenTree} {expected : Expectation μ}
    {pieces content : List (Piece μ)} {parentheses : Extent}
    (h : read spelling expected tokens = .ok pieces)
    (member : .repetition content parentheses ∈ pieces) :
    expected = .operator content parentheses ∨
      ∃ inside, .group .paren inside parentheses ∈ tokens ∧
        ofTokens spelling inside = .ok content := by
  induction tokens generalizing expected pieces with
  | nil =>
    cases expected with
    | piece =>
      cases h
      cases member
    | _ => cases h
  | cons t rest ih =>
    obtain ⟨given, next, later, stepped, read, rfl⟩ := of_read_cons h
    obtain ⟨completed, begun⟩ := of_step stepped
    rcases List.mem_append.mp member with early | late
    · exact .inl (completed _ _ early)
    · rcases ih read late with rfl | ⟨inside, among, within⟩
      · rcases begun _ _ rfl with same | ⟨inside, rfl, within⟩
        · exact .inl same
        · exact .inr ⟨inside, List.mem_cons_self, within⟩
      · exact .inr ⟨inside, List.mem_cons_of_mem _ among, within⟩

end MacroExpansion.Piece
