import MacroExpansion.Proofs.Definition.Derivation

/-!
# Printing pieces

A printing of some pieces has each token as it is, each group in delimiters of any kind, each
metavariable after a `$` and each repetition with no separator and the operator `*`. Where the
tokens of a printing stand is open, and so is the spacing of its own punctuation. Main statement:
the pieces of a printing are the printed ones, and a printing of the pieces of some tokens is these
tokens, less the separators, the operators, the delimiters and the marks of raw names.
-/
namespace MacroExpansion

/-- A name with no mark of a raw identifier. -/
def Ident.Unmarked (name : Ident) : Prop :=
  ¬ ['r', '#'] <+: name.name.toList

theorem Ident.ofSpelling_of_unmarked {name : Ident} (unmarked : name.Unmarked) :
    Ident.ofSpelling name.name = name := by
  have same : Ident.unraw name.name = name.name := by
    rw [unraw]
    split
    next cs marked => exact absurd (marked ▸ List.prefix_append ['r', '#'] cs) unmarked
    next => rfl
  rw [ofSpelling, same]

namespace Spelling

variable {μ : Type}

/-- A metavariable has this name. -/
inductive Names : Spelling μ → μ → Ident → Prop where
  | named {make : Ident → μ} {name : Ident} : Names (.named make) (make name) name
  | typed {make : Ident → FragmentKind → μ} {name : Ident} {kind : FragmentKind} :
      Names (.typed make) (make name kind) name

/-- A metavariable is printed as these tokens after its `$`. -/
inductive Prints : Spelling μ → μ → List TokenTree → Prop where
  | named {make : Ident → μ} {name : Ident} {place : Extent} :
      Prints (.named make) (make name) [.ident name.name place]
  | typed {make : Ident → FragmentKind → μ} {name : Ident} {kind : FragmentKind} {joint : Bool}
      {place colon word : Extent} :
      Prints (.typed make) (make name kind)
        [.ident name.name place, .punct ':' joint colon, .ident kind.text word]

/-- What a printing makes of the tokens of a metavariable: its name loses its mark. -/
inductive Reprints : Spelling μ → List TokenTree → List TokenTree → Prop where
  | named {make : Ident → μ} {text : String} {place place' : Extent} :
      Reprints (.named make) [.ident text place] [.ident (Ident.unraw text) place']
  | typed {make : Ident → FragmentKind → μ} {text kind : String} {joint joint' : Bool}
      {place colon word place' colon' word' : Extent} :
      Reprints (.typed make) [.ident text place, .punct ':' joint colon, .ident kind word]
        [.ident (Ident.unraw text) place', .punct ':' joint' colon', .ident kind word']

/-- Each metavariable is made of one name, and of one kind if it has kinds. -/
def Faithful : Spelling μ → Prop
  | .named make => Function.Bijective make
  | .typed make => Function.Bijective fun (name, kind) => make name kind

theorem faithful_pattern : pattern.Faithful :=
  ⟨fun (_, _) (_, _) same => by cases same; rfl, fun m => ⟨(m.name, m.kind), rfl⟩⟩

theorem faithful_template : template.Faithful :=
  Function.bijective_id

variable {spelling : Spelling μ} {m : μ} {words printed : List TokenTree}

theorem Faithful.exists_prints (faithful : spelling.Faithful) (m : μ) :
    ∃ words, spelling.Prints m words := by
  let place : Extent := ⟨.origin, .origin⟩
  cases spelling with
  | named make =>
    obtain ⟨name, rfl⟩ := faithful.2 m
    exact ⟨[.ident name.name place], .named⟩
  | typed make =>
    obtain ⟨⟨name, kind⟩, rfl⟩ := faithful.2 m
    exact ⟨[.ident name.name place, .punct ':' false place, .ident kind.text place], .typed⟩

/-- A metavariable with an unmarked name is printed as it is spelled. -/
theorem Prints.spells (prints : spelling.Prints m words)
    (unmarked : ∀ name, spelling.Names m name → name.Unmarked) : spelling.Spells words m := by
  cases prints with
  | @named make name place =>
    have spells : Spells (.named make) [.ident name.name place] (make (.ofSpelling name.name)) :=
      .named
    rwa [Ident.ofSpelling_of_unmarked (unmarked name .named)] at spells
  | @typed make name kind joint place colon word =>
    have spells : Spells (.typed make)
        [.ident name.name place, .punct ':' joint colon, .ident kind.text word]
        (make (.ofSpelling name.name) kind) := .typed
    rwa [Ident.ofSpelling_of_unmarked (unmarked name .typed)] at spells

theorem Spells.reprints (spells : spelling.Spells words m) (faithful : spelling.Faithful)
    (prints : spelling.Prints m printed) : spelling.Reprints words printed := by
  cases spells with
  | @named make text =>
    generalize made : make (.ofSpelling text) = m at prints
    cases prints
    cases faithful.1 made
    exact .named
  | @typed make text kind =>
    generalize made : make (.ofSpelling text) kind = m at prints
    cases prints with
    | @typed _ name kind' =>
      have same : (Ident.ofSpelling text, kind) = (name, kind') := faithful.1 made
      cases same
      exact .typed

end Spelling

namespace Piece

variable {μ : Type} {spelling : Spelling μ} {p q : Piece μ} {ps qs content : List (Piece μ)}
  {ts us : List TokenTree}

/-- A piece is one of a sequence, or of what is in its groups and repetitions at any depth. -/
inductive Occurs (q : Piece μ) : List (Piece μ) → Prop where
  | here {ps : List (Piece μ)} (member : q ∈ ps) : Occurs q ps
  | group {content ps : List (Piece μ)} (member : .group content ∈ ps)
      (within : Occurs q content) : Occurs q ps
  | repetition {content ps : List (Piece μ)} {parentheses : Extent}
      (member : .repetition content parentheses ∈ ps) (within : Occurs q content) : Occurs q ps

theorem Occurs.later (occurs : Occurs q ps) : Occurs q (p :: ps) := by
  cases occurs with
  | here member => exact .here (List.mem_cons_of_mem _ member)
  | group member within => exact .group (List.mem_cons_of_mem _ member) within
  | repetition member within => exact .repetition (List.mem_cons_of_mem _ member) within

theorem Occurs.not_nil : ¬ Occurs q [] := by
  rintro (member | ⟨member, _⟩ | ⟨member, _⟩) <;> cases member

theorem Occurs.of_cons (occurs : Occurs q (p :: ps)) :
    q = p ∨ (∃ content, p = .group content ∧ Occurs q content) ∨
      (∃ content parentheses, p = .repetition content parentheses ∧ Occurs q content) ∨
      Occurs q ps := by
  cases occurs with
  | here member =>
    rcases List.mem_cons.mp member with same | member
    · exact .inl same
    · exact .inr (.inr (.inr (.here member)))
  | group member within =>
    rcases List.mem_cons.mp member with same | member
    · exact .inr (.inl ⟨_, same.symm, within⟩)
    · exact .inr (.inr (.inr (.group member within)))
  | repetition member within =>
    rcases List.mem_cons.mp member with same | member
    · exact .inr (.inr (.inl ⟨_, _, same.symm, within⟩))
    · exact .inr (.inr (.inr (.repetition member within)))

/-- The tokens among some pieces, at any depth, are pieces by themselves. -/
def PlainTokens (ps : List (Piece μ)) : Prop :=
  ∀ t, Occurs (.token t) ps → t.Plain

theorem PlainTokens.cons (token : ∀ t, p = .token t → t.Plain)
    (group : ∀ content, p = .group content → PlainTokens content)
    (repetition : ∀ content parentheses, p = .repetition content parentheses →
      PlainTokens content) (later : PlainTokens ps) : PlainTokens (p :: ps) := by
  intro t occurs
  rcases occurs.of_cons with same | ⟨content, same, occurs⟩ | ⟨content, _, same, occurs⟩ | occurs
  · exact token t same.symm
  · exact group content same t occurs
  · exact repetition content _ same t occurs
  · exact later t occurs

/-- Pieces whose printing can be read: at any depth, the tokens are pieces by themselves and the
names of metavariables have no mark. -/
structure Printable (spelling : Spelling μ) (ps : List (Piece μ)) : Prop where
  plain : PlainTokens ps
  unmarked : ∀ m, Occurs (.metavariable m) ps → ∀ name, spelling.Names m name → name.Unmarked

theorem Printable.of_occurs (printable : Printable spelling ps)
    (among : ∀ q, Occurs q qs → Occurs q ps) : Printable spelling qs :=
  ⟨fun t occurs => printable.plain t (among _ occurs),
    fun m occurs => printable.unmarked m (among _ occurs)⟩

/-- Some pieces are printed as these tokens. -/
inductive Prints (spelling : Spelling μ) : List (Piece μ) → List TokenTree → Prop where
  | nil : Prints spelling [] []
  | token {t u : TokenTree} {ps : List (Piece μ)} {us : List TokenTree}
      (same : u.unplaced = t.unplaced) (later : Prints spelling ps us) :
      Prints spelling (.token t :: ps) (u :: us)
  | group {content ps : List (Piece μ)} {d : Delimiter} {inside us : List TokenTree}
      {extent : Extent} (within : Prints spelling content inside) (later : Prints spelling ps us) :
      Prints spelling (.group content :: ps) (.group d inside extent :: us)
  | metavariable {m : μ} {ps : List (Piece μ)} {words us : List TokenTree} {joint : Bool}
      {sigil : Extent} (prints : spelling.Prints m words) (later : Prints spelling ps us) :
      Prints spelling (.metavariable m :: ps) (.punct '$' joint sigil :: (words ++ us))
  | repetition {content ps : List (Piece μ)} {inside us : List TokenTree} {joint joint' : Bool}
      {parentheses sigil stretch place : Extent} (within : Prints spelling content inside)
      (later : Prints spelling ps us) :
      Prints spelling (.repetition content parentheses :: ps)
        (.punct '$' joint sigil :: .group .paren inside stretch :: .punct '*' joint' place :: us)

/-- Tokens, and what is left of them in a printing of their pieces. -/
inductive Reprints (spelling : Spelling μ) : List TokenTree → List TokenTree → Prop where
  | nil : Reprints spelling [] []
  | token {t u : TokenTree} {ts us : List TokenTree} (plain : t.Plain)
      (same : u.unplaced = t.unplaced) (later : Reprints spelling ts us) :
      Reprints spelling (t :: ts) (u :: us)
  | group {d d' : Delimiter} {inside inside' ts us : List TokenTree} {extent extent' : Extent}
      (within : Reprints spelling inside inside') (later : Reprints spelling ts us) :
      Reprints spelling (.group d inside extent :: ts) (.group d' inside' extent' :: us)
  | metavariable {words words' ts us : List TokenTree} {joint joint' : Bool}
      {sigil sigil' : Extent} (reprints : spelling.Reprints words words')
      (later : Reprints spelling ts us) :
      Reprints spelling (.punct '$' joint sigil :: (words ++ ts))
        (.punct '$' joint' sigil' :: (words' ++ us))
  | repetition {inside inside' separator ts us : List TokenTree} {c : Char}
      {joint joint' operator operator' : Bool}
      {sigil sigil' parentheses parentheses' place place' : Extent}
      (within : Reprints spelling inside inside') (separates : ∀ t ∈ separator, t.Separates)
      (operates : c ∈ repetitionOperators) (later : Reprints spelling ts us) :
      Reprints spelling
        (.punct '$' joint sigil :: .group .paren inside parentheses ::
          (separator ++ .punct c operator place :: ts))
        (.punct '$' joint' sigil' :: .group .paren inside' parentheses' ::
          .punct '*' operator' place' :: us)

/-! ## The pieces of a printing -/

theorem exists_prints (faithful : spelling.Faithful) (ps : List (Piece μ)) :
    ∃ us, Prints spelling ps us := by
  let place : Extent := ⟨.origin, .origin⟩
  match ps with
  | [] => exact ⟨[], .nil⟩
  | .token t :: ps =>
    obtain ⟨us, later⟩ := exists_prints faithful ps
    exact ⟨_, .token rfl later⟩
  | .group content :: ps =>
    obtain ⟨inside, within⟩ := exists_prints faithful content
    obtain ⟨us, later⟩ := exists_prints faithful ps
    exact ⟨.group .paren inside place :: us, .group within later⟩
  | .metavariable m :: ps =>
    obtain ⟨words, prints⟩ := faithful.exists_prints m
    obtain ⟨us, later⟩ := exists_prints faithful ps
    exact ⟨.punct '$' false place :: (words ++ us), .metavariable prints later⟩
  | .repetition content _ :: ps =>
    obtain ⟨inside, within⟩ := exists_prints faithful content
    obtain ⟨us, later⟩ := exists_prints faithful ps
    exact ⟨.punct '$' false place :: .group .paren inside place :: .punct '*' false place :: us,
      .repetition within later⟩

theorem plain_of_unplaced {t u : TokenTree} (same : u.unplaced = t.unplaced) (plain : t.Plain) :
    u.Plain := by
  cases t with
  | group _ _ _ => cases plain
  | _ =>
    cases u <;> cases same
    exact plain

/-- A printing is written for the pieces printed, in other places. -/
theorem Prints.derives (prints : Prints spelling ps us) (printable : Printable spelling ps) :
    ∃ qs, Derives spelling us qs ∧ unplacedAll qs = unplacedAll ps := by
  induction prints with
  | nil => exact ⟨[], .nil, rfl⟩
  | token same _ later =>
    obtain ⟨qs, derives, alike⟩ := later (printable.of_occurs fun _ => .later)
    have plain := plain_of_unplaced same (printable.plain _ (.here List.mem_cons_self))
    exact ⟨_, .token plain derives, by simp [unplacedAll, unplaced, same, alike]⟩
  | group _ _ within later =>
    obtain ⟨content, inside, alike⟩ := within (printable.of_occurs fun _ =>
      .group List.mem_cons_self)
    obtain ⟨qs, derives, alike'⟩ := later (printable.of_occurs fun _ => .later)
    exact ⟨_, .group inside derives, by simp [unplacedAll, unplaced, alike, alike']⟩
  | metavariable prints _ later =>
    obtain ⟨qs, derives, alike⟩ := later (printable.of_occurs fun _ => .later)
    have spells := prints.spells (printable.unmarked _ (.here List.mem_cons_self))
    exact ⟨_, .metavariable spells derives, by simp [unplacedAll, unplaced, alike]⟩
  | repetition _ _ within later =>
    obtain ⟨content, inside, alike⟩ := within (printable.of_occurs fun _ =>
      .repetition List.mem_cons_self)
    obtain ⟨qs, derives, alike'⟩ := later (printable.of_occurs fun _ => .later)
    have separates : ∀ t ∈ ([] : List TokenTree), t.Separates := List.forall_mem_nil _
    have operator : '*' ∈ repetitionOperators := by decide
    exact ⟨_, .repetition inside separates operator derives,
      by simp [unplacedAll, unplaced, alike, alike']⟩

/-! ## The printing of some tokens -/

/-- The tokens among the pieces of some tokens are none that begin other pieces. -/
theorem Derives.plainTokens (derives : Derives spelling ts ps) : PlainTokens ps := by
  induction derives with
  | nil => exact fun _ occurs => absurd occurs Occurs.not_nil
  | token plain _ later =>
    refine .cons (fun t same => ?_) nofun nofun later
    cases same
    exact plain
  | group _ _ within later =>
    refine .cons nofun (fun content same => ?_) nofun later
    cases same
    exact within
  | metavariable _ _ later => exact .cons nofun nofun nofun later
  | repetition _ _ _ _ within later =>
    refine .cons nofun nofun (fun content parentheses same => ?_) later
    cases same
    exact within

theorem Derives.reprints (derives : Derives spelling ts ps) (faithful : spelling.Faithful)
    (prints : Prints spelling ps us) : Reprints spelling ts us := by
  induction derives generalizing us with
  | nil =>
    cases prints
    exact .nil
  | token plain _ ih =>
    cases prints with
    | token same later => exact .token plain same (ih later)
  | group _ _ within later =>
    cases prints with
    | group within' later' => exact .group (within within') (later later')
  | metavariable spells _ ih =>
    cases prints with
    | metavariable prints later => exact .metavariable (spells.reprints faithful prints) (ih later)
  | repetition _ separates operator _ within later =>
    cases prints with
    | repetition within' later' =>
      exact .repetition (within within') separates operator (later later')

end Piece

/-- Reading pieces inverts printing them. -/
structure Spelling.InvertsPrinting {μ : Type} (spelling : Spelling μ) : Prop where
  /-- All pieces can be printed. -/
  prints : ∀ ps, ∃ us, Piece.Prints spelling ps us
  /-- The pieces of a printing are the printed ones, but for their places. -/
  reads : ∀ ps us, Piece.Printable spelling ps → Piece.Prints spelling ps us →
    ∃ qs, Piece.ofTokens spelling us = .ok qs ∧ Piece.unplacedAll qs = Piece.unplacedAll ps
  /-- No token among the pieces that are read is a `$` or a group. -/
  plain : ∀ ts ps, Piece.ofTokens spelling ts = .ok ps → Piece.PlainTokens ps
  /-- The pieces that are read are printed as what they were read from. -/
  reprints : ∀ ts ps us, Piece.ofTokens spelling ts = .ok ps → Piece.Prints spelling ps us →
    Piece.Reprints spelling ts us

theorem Spelling.Faithful.invertsPrinting {μ : Type} {spelling : Spelling μ}
    (faithful : spelling.Faithful) : spelling.InvertsPrinting where
  prints := Piece.exists_prints faithful
  reads _ _ printable prints := by
    obtain ⟨qs, derives, alike⟩ := prints.derives printable
    exact ⟨qs, Piece.ofTokens_of_derives derives, alike⟩
  plain _ _ found := (Piece.ofTokens_eq_ok_iff.mp found).plainTokens
  reprints _ _ _ found prints := (Piece.ofTokens_eq_ok_iff.mp found).reprints faithful prints

/-- Reading the pieces of patterns and of templates inverts printing them. -/
theorem pieces_invert_printing :
    Spelling.pattern.InvertsPrinting ∧ Spelling.template.InvertsPrinting :=
  ⟨Spelling.faithful_pattern.invertsPrinting, Spelling.faithful_template.invertsPrinting⟩

end MacroExpansion
