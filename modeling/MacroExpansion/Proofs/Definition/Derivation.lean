import MacroExpansion.Proofs.Definition.Piece

/-!
# The grammar of pieces

What pieces are written like, with no mention of how they are read. A repetition is its
parentheses, a separator of any length and an operator; the operator is the first one after the
parentheses, and no group is passed over on the way to it. Main statement: pieces are read from some
tokens if they are derived from them.
-/
namespace MacroExpansion

namespace FragmentKind

theorem ofText?_eq_some_iff {word : String} {kind : FragmentKind} :
    ofText? word = some kind ↔ kind.text = word := by
  constructor
  · intro found
    have named := List.find?_some found
    exact beq_iff_eq.mp named
  · rintro rfl
    cases kind <;> decide

/-- The word for a kind may be a name. -/
theorem not_reserved_text (kind : FragmentKind) : ¬ Grammar.reserved.contains kind.text = true := by
  cases kind <;> decide

end FragmentKind

namespace TokenTree

/-- A token that is a piece by itself: no group and no `$`. -/
def Plain : TokenTree → Prop
  | .group _ _ _ => False
  | .punct c _ _ => c ≠ '$'
  | .ident _ _ | .literal _ _ => True

/-- A token that may stand between a repetition and its operator. -/
def Separates : TokenTree → Prop
  | .group _ _ _ => False
  | .punct c _ _ => c ∉ Piece.repetitionOperators
  | .ident _ _ | .literal _ _ => True

end TokenTree

namespace Spelling

variable {μ : Type}

/-- These tokens after a lone `$` spell a metavariable. -/
inductive Spells : Spelling μ → List TokenTree → μ → Prop where
  | named {make : Ident → μ} {text : String} {place : Extent} :
      Spells (.named make) [.ident text place] (make (.ofSpelling text))
  | typed {make : Ident → FragmentKind → μ} {text : String} {kind : FragmentKind} {joint : Bool}
      {place colon word : Extent} :
      Spells (.typed make) [.ident text place, .punct ':' joint colon, .ident kind.text word]
        (make (.ofSpelling text) kind)

end Spelling

namespace Piece

variable {μ : Type} {spelling : Spelling μ}

/-- These tokens are written for these pieces. -/
inductive Derives (spelling : Spelling μ) : List TokenTree → List (Piece μ) → Prop where
  | nil : Derives spelling [] []
  | token {t : TokenTree} {ts : List TokenTree} {ps : List (Piece μ)} (plain : t.Plain)
      (later : Derives spelling ts ps) : Derives spelling (t :: ts) (.token t :: ps)
  | group {d : Delimiter} {inside ts : List TokenTree} {extent : Extent}
      {content ps : List (Piece μ)} (within : Derives spelling inside content)
      (later : Derives spelling ts ps) :
      Derives spelling (.group d inside extent :: ts) (.group content :: ps)
  | metavariable {joint : Bool} {sigil : Extent} {words ts : List TokenTree} {m : μ}
      {ps : List (Piece μ)} (spells : spelling.Spells words m) (later : Derives spelling ts ps) :
      Derives spelling (.punct '$' joint sigil :: (words ++ ts)) (.metavariable m :: ps)
  | repetition {joint joint' : Bool} {sigil parentheses place : Extent}
      {inside separator ts : List TokenTree} {c : Char} {content ps : List (Piece μ)}
      (within : Derives spelling inside content) (separates : ∀ t ∈ separator, t.Separates)
      (operator : c ∈ repetitionOperators) (later : Derives spelling ts ps) :
      Derives spelling (.punct '$' joint sigil :: .group .paren inside parentheses ::
        (separator ++ .punct c joint' place :: ts)) (.repetition content parentheses :: ps)

theorem Derives.append {ts us : List TokenTree} {ps qs : List (Piece μ)}
    (first : Derives spelling ts ps) (later : Derives spelling us qs) :
    Derives spelling (ts ++ us) (ps ++ qs) := by
  induction first with
  | nil => exact later
  | token plain _ ih => exact .token plain ih
  | group within _ _ ih => exact .group within ih
  | metavariable spells _ ih =>
    rw [List.cons_append, List.append_assoc]
    exact .metavariable spells ih
  | repetition within separates operator _ _ ih =>
    rw [List.cons_append, List.cons_append, List.append_assoc]
    exact .repetition within separates operator ih

/-! ## Whatever is read is derived -/

/-- The tokens of a piece that is begun, and what is expected after them. -/
inductive Begun : Spelling μ → List TokenTree → Expectation μ → Prop where
  | nothing {spelling : Spelling μ} : Begun spelling [] .piece
  | dollar {spelling : Spelling μ} {joint : Bool} {sigil : Extent} :
      Begun spelling [.punct '$' joint sigil] .dollar
  | name {make : Ident → FragmentKind → μ} {text : String} {joint : Bool} {sigil place : Extent} :
      Begun (.typed make) [.punct '$' joint sigil, .ident text place]
        (.colon (make (.ofSpelling text)))
  | colon {make : Ident → FragmentKind → μ} {text : String} {joint joint' : Bool}
      {sigil place colon : Extent} :
      Begun (.typed make) [.punct '$' joint sigil, .ident text place, .punct ':' joint' colon]
        (.kind (make (.ofSpelling text)))
  | parentheses {spelling : Spelling μ} {joint : Bool} {sigil parentheses : Extent}
      {inside separator : List TokenTree} {content : List (Piece μ)}
      (within : Derives spelling inside content) (separates : ∀ t ∈ separator, t.Separates) :
      Begun spelling (.punct '$' joint sigil :: .group .paren inside parentheses :: separator)
        (.operator content parentheses)

/-- Some tokens are those of complete pieces, and then those of a piece that is begun. -/
def Reached (spelling : Spelling μ) (ts : List TokenTree) (given : List (Piece μ))
    (next : Expectation μ) : Prop :=
  ∃ complete after, ts = complete ++ after ∧ Derives spelling complete given ∧
    Begun spelling after next

section

variable {before : List TokenTree} {expected next : Expectation μ} {t : TokenTree}
  {given : List (Piece μ)}

theorem Reached.of_piece
    (inside : ∀ d content extent ps, t = .group d content extent →
      ofTokens spelling content = .ok ps → Derives spelling content ps)
    (stepped : step spelling t .piece = .ok (given, next)) : Reached spelling [t] given next := by
  simp only [Piece.step] at stepped
  split at stepped
  next => cases stepped; exact ⟨[], _, rfl, .nil, .dollar⟩
  next d content extent =>
    obtain ⟨ps, found, same⟩ := Attempt.of_map_ok stepped
    cases same
    exact ⟨_, [], rfl, .group (inside d content extent ps rfl found) .nil, .nothing⟩
  next notDollar notGroup =>
    cases stepped
    refine ⟨_, [], rfl, .token ?_ .nil, .nothing⟩
    cases t with
    | punct c joint extent => exact fun same => notDollar joint extent (same ▸ rfl)
    | group d content extent => exact notGroup d content extent rfl
    | _ => trivial

/-- Behind the parentheses of a repetition, a token is its operator or goes to its separator. -/
theorem Reached.of_operator {joint : Bool} {sigil parentheses : Extent}
    {inside separator : List TokenTree} {content : List (Piece μ)}
    (within : Derives spelling inside content) (separates : ∀ t ∈ separator, t.Separates)
    (stepped : step spelling t (.operator content parentheses) = .ok (given, next)) :
    Reached spelling
      (.punct '$' joint sigil :: .group .paren inside parentheses :: (separator ++ [t]))
      given next := by
  have longer (separates' : t.Separates) : ∀ u ∈ separator ++ [t], u.Separates :=
    List.forall_mem_append.mpr ⟨separates, List.forall_mem_singleton.mpr separates'⟩
  simp only [Piece.step] at stepped
  split at stepped
  next c joint' place' =>
    split at stepped
    next operator =>
      cases stepped
      exact ⟨_, [], (List.append_nil _).symm,
        .repetition within separates (List.contains_iff_mem.mp operator) .nil, .nothing⟩
    next other =>
      cases stepped
      exact ⟨[], _, rfl, .nil,
        .parentheses within (longer fun operator => other (List.contains_iff_mem.mpr operator))⟩
  next => cases stepped
  next notPunct notGroup =>
    cases stepped
    refine ⟨[], _, rfl, .nil, .parentheses within (longer ?_)⟩
    cases t with
    | punct c joint extent => exact absurd rfl (notPunct c joint extent)
    | group d content extent => exact notGroup d content extent rfl
    | _ => trivial

/-- A token begins or continues a piece, or completes it. -/
theorem Begun.step (begun : Begun spelling before expected)
    (inside : ∀ d content extent ps, t = .group d content extent →
      ofTokens spelling content = .ok ps → Derives spelling content ps)
    (stepped : step spelling t expected = .ok (given, next)) :
    Reached spelling (before ++ [t]) given next := by
  cases begun with
  | nothing => exact .of_piece inside stepped
  | dollar =>
    simp only [Piece.step] at stepped
    split at stepped
    next content parentheses =>
      obtain ⟨ps, found, same⟩ := Attempt.of_map_ok stepped
      cases same
      exact ⟨[], _, rfl, .nil,
        .parentheses (inside _ content _ ps rfl found) (List.forall_mem_nil _)⟩
    next =>
      cases spelling with
      | named => cases stepped; exact ⟨_, [], rfl, .metavariable .named .nil, .nothing⟩
      | typed => cases stepped; exact ⟨[], _, rfl, .nil, .name⟩
    next => cases stepped
  | name =>
    simp only [Piece.step] at stepped
    split at stepped <;> cases stepped
    exact ⟨[], _, rfl, .nil, .colon⟩
  | colon =>
    simp only [Piece.step] at stepped
    split at stepped
    next =>
      split at stepped
      next => cases stepped
      next =>
        split at stepped
        next kind known =>
          cases stepped
          cases FragmentKind.ofText?_eq_some_iff.mp known
          exact ⟨_, [], rfl, .metavariable .typed .nil, .nothing⟩
        next => cases stepped
    next => cases stepped
  | parentheses within separates => exact .of_operator within separates stepped

end

mutual

theorem derives_of_group {spelling : Spelling μ} {content : List TokenTree} {extent : Extent}
    {d : Delimiter} {ps : List (Piece μ)} (t : TokenTree) (same : t = .group d content extent)
    (found : ofTokens spelling content = .ok ps) : Derives spelling content ps := by
  match t, same with
  | .group _ _ _, rfl => exact derives_of_read content .nothing found

/-- Tokens that pieces are read from continue what was begun before them. -/
theorem derives_of_read {spelling : Spelling μ} {before : List TokenTree}
    {expected : Expectation μ} {ps : List (Piece μ)} (tokens : List TokenTree)
    (begun : Begun spelling before expected) (found : read spelling expected tokens = .ok ps) :
    Derives spelling (before ++ tokens) ps := by
  match tokens with
  | [] =>
    cases begun with
    | nothing =>
      cases found
      exact .nil
    | _ => cases found
  | t :: rest =>
    obtain ⟨given, next, later, stepped, readRest, rfl⟩ := of_read_cons found
    obtain ⟨complete, after, same, derives, begun⟩ := begun.step
      (fun d content extent ps same found => derives_of_group t same found) stepped
    have together := derives.append (derives_of_read rest begun readRest)
    rwa [← List.append_assoc, ← same, List.append_assoc, List.singleton_append] at together

end

/-! ## Whatever is derived is read -/

/-- A token that completes no piece. -/
theorem read_of_begins {expected next : Expectation μ} {t : TokenTree} {rest : List TokenTree}
    {ps : List (Piece μ)} (stepped : step spelling t expected = .ok ([], next))
    (later : read spelling next rest = .ok ps) : read spelling expected (t :: rest) = .ok ps := by
  rw [read_cons, stepped, ← later]
  exact (read_later _).symm

/-- A token that completes a piece. -/
theorem read_of_completes {expected : Expectation μ} {t : TokenTree} {rest : List TokenTree}
    {p : Piece μ} {ps : List (Piece μ)} (stepped : step spelling t expected = .ok ([p], .piece))
    (later : ofTokens spelling rest = .ok ps) :
    read spelling expected (t :: rest) = .ok (p :: ps) := by
  rw [read_cons, stepped]
  change (do return [p] ++ (← ofTokens spelling rest)) = _
  rw [later]
  rfl

theorem step_of_plain {t : TokenTree} (plain : t.Plain) :
    step spelling t .piece = .ok ([.token t], .piece) := by
  cases t with
  | punct c joint extent =>
    have other : c ≠ '$' := plain
    simp [step, other]
  | group _ _ _ => cases plain
  | _ => rfl

theorem step_of_separates {content : List (Piece μ)} {parentheses : Extent} {t : TokenTree}
    (separates : t.Separates) : step spelling t (.operator content parentheses) =
      .ok ([], .operator content parentheses) := by
  cases t with
  | punct c joint extent =>
    exact if_neg fun operator => separates (List.contains_iff_mem.mp operator)
  | group _ _ _ => cases separates
  | _ => rfl

/-- A separator is passed over. -/
theorem read_separator {content ps : List (Piece μ)} {parentheses : Extent}
    {separator rest : List TokenTree} (separates : ∀ t ∈ separator, t.Separates)
    (found : read spelling (.operator content parentheses) rest = .ok ps) :
    read spelling (.operator content parentheses) (separator ++ rest) = .ok ps := by
  induction separator with
  | nil => exact found
  | cons t separator ih =>
    exact read_of_begins (step_of_separates (separates t List.mem_cons_self))
      (ih fun u member => separates u (List.mem_cons_of_mem _ member))

theorem ofTokens_of_derives {ts : List TokenTree} {ps : List (Piece μ)}
    (derives : Derives spelling ts ps) : ofTokens spelling ts = .ok ps := by
  induction derives with
  | nil => rfl
  | token plain _ later => exact read_of_completes (step_of_plain plain) later
  | @group d inside _ extent content _ _ _ within later =>
    have stepped : step spelling (.group d inside extent) .piece =
        .ok ([.group content], .piece) := congrArg (Except.map _) within
    exact read_of_completes stepped later
  | @metavariable _ _ _ _ _ _ spells _ later =>
    cases spells with
    | @named make text place =>
      have named : step (.named make) (.ident text place) .dollar =
          .ok ([.metavariable (make (.ofSpelling text))], .piece) := rfl
      exact read_of_begins rfl (read_of_completes named later)
    | @typed make text kind _ _ _ place =>
      have known : step (.typed make) (.ident kind.text place) (.kind (make (.ofSpelling text))) =
          .ok ([.metavariable (make (.ofSpelling text) kind)], .piece) := by
        simp only [step, if_neg kind.not_reserved_text, FragmentKind.ofText?_eq_some_iff.mpr rfl]
      exact read_of_begins rfl (read_of_begins rfl (read_of_begins rfl
        (read_of_completes known later)))
  | @repetition _ joint _ parentheses place inside _ _ c content _ _ separates operator _ within
      later =>
    have opened : step spelling (.group .paren inside parentheses) .dollar =
        .ok ([], .operator content parentheses) := congrArg (Except.map _) within
    have closed : step spelling (.punct c joint place) (.operator content parentheses) =
        .ok ([.repetition content parentheses], .piece) :=
      if_pos (List.contains_iff_mem.mpr operator)
    exact read_of_begins rfl (read_of_begins opened (read_separator separates
      (read_of_completes closed later)))

/-- Pieces are read from the tokens that they are derived from, and from no others. -/
theorem ofTokens_eq_ok_iff {ts : List TokenTree} {ps : List (Piece μ)} :
    ofTokens spelling ts = .ok ps ↔ Derives spelling ts ps :=
  ⟨derives_of_read ts .nothing, ofTokens_of_derives⟩

end Piece

end MacroExpansion
