import MacroExpansion.Proofs.Definition.Derivation
import MacroExpansion.Proofs.Definition.Address
import MacroExpansion.Proofs.Token.Stretch

/-!
# Metavariables as they are written

A metavariable is a `$` and a name after it, which may be spelled raw and have blanks and comments
in front of it. Main statements: these are the metavariables that pieces have, and both parts stand
in the text at the bytes that are told.
-/
namespace MacroExpansion

/-- A `$` and the name after it. -/
structure Sigil where
  sign : Extent
  spelling : String
  name : Extent
  deriving DecidableEq, Repr

/-- What the name stands for. -/
def Sigil.ident (s : Sigil) : Ident :=
  .ofSpelling s.spelling

namespace TokenTree

/-- The metavariable that a token begins, if it is a `$` in front of a name. -/
def sigil? : TokenTree → (later : List TokenTree) → Option Sigil
  | .punct '$' _ sign, .ident spelling name :: _ => some ⟨sign, spelling, name⟩
  | _, _ => none

mutual

/-- The metavariables in a token. -/
def sigils : TokenTree → List Sigil
  | .group _ content _ => sigilsOfAll content
  | _ => []

/-- The metavariables among some tokens, in groups of any depth. -/
def sigilsOfAll : List TokenTree → List Sigil
  | [] => []
  | t :: ts => t.sigils ++ ((sigil? t ts).toList ++ sigilsOfAll ts)

end

theorem sigilsOfAll_cons_of_plain {t : TokenTree} (plain : t.Plain) (ts : List TokenTree) :
    sigilsOfAll (t :: ts) = sigilsOfAll ts := by
  cases t with
  | punct c joint place =>
    have other : c ≠ '$' := plain
    simp [sigilsOfAll, sigils, sigil?, other]
  | group _ _ _ => cases plain
  | _ => simp [sigilsOfAll, sigils, sigil?]

theorem sigilsOfAll_cons_group (d : Delimiter) (content : List TokenTree) (extent : Extent)
    (ts : List TokenTree) :
    sigilsOfAll (.group d content extent :: ts) = sigilsOfAll content ++ sigilsOfAll ts := by
  simp [sigilsOfAll, sigils, sigil?]

theorem sigilsOfAll_cons_sigil (joint : Bool) (sign name : Extent) (spelling : String)
    (ts : List TokenTree) :
    sigilsOfAll (.punct '$' joint sign :: .ident spelling name :: ts) =
      ⟨sign, spelling, name⟩ :: sigilsOfAll ts := by
  simp [sigilsOfAll, sigils, sigil?]

/-- What is in a group is among the tokens. -/
theorem sigilsOfAll_subset {ts content : List TokenTree} {d : Delimiter} {extent : Extent}
    (member : .group d content extent ∈ ts) : sigilsOfAll content ⊆ sigilsOfAll ts := by
  induction ts with
  | nil => cases member
  | cons t ts ih =>
    intro s among
    rcases List.mem_cons.mp member with rfl | member
    · rw [sigilsOfAll_cons_group]
      exact List.mem_append_left _ among
    · simp only [sigilsOfAll, List.mem_append]
      exact .inr (.inr (ih member among))

end TokenTree

open TokenTree

/-! ## The metavariables that pieces have -/

namespace Spelling

variable {μ : Type}

/-- What tells the name of a metavariable tells what it was spelled with. -/
inductive Labels (label : μ → Ident) : Spelling μ → Prop where
  | named {make : Ident → μ} (same : ∀ name, label (make name) = name) : Labels label (.named make)
  | typed {make : Ident → FragmentKind → μ} (same : ∀ name kind, label (make name kind) = name) :
      Labels label (.typed make)

theorem labels_template : Labels id template :=
  .named fun _ => rfl

theorem labels_pattern : Labels Fragment.name pattern :=
  .typed fun _ _ => rfl

/-- A `$` and the tokens that spell a metavariable are one, by its name. -/
theorem Spells.sigil {spelling : Spelling μ} {label : μ → Ident} {words : List TokenTree} {m : μ}
    (spells : spelling.Spells words m) (labels : spelling.Labels label) (joint : Bool)
    (sign : Extent) (ts : List TokenTree) :
    ∃ s : Sigil, s.ident = label m ∧
      sigilsOfAll (.punct '$' joint sign :: (words ++ ts)) = s :: sigilsOfAll ts := by
  cases spells with
  | @named make text place =>
    cases labels with
    | named same => exact ⟨⟨sign, text, place⟩, (same _).symm, sigilsOfAll_cons_sigil ..⟩
  | @typed make text kind _ place =>
    cases labels with
    | typed same =>
      refine ⟨⟨sign, text, place⟩, (same _ kind).symm, (sigilsOfAll_cons_sigil ..).trans ?_⟩
      simp [sigilsOfAll, sigils, sigil?]

end Spelling

namespace Piece

variable {μ : Type} {spelling : Spelling μ} {label : μ → Ident}

/-- Where there is no repetition, the metavariables are the `$`s in front of a name. -/
theorem Derives.sigils {ts : List TokenTree} {ps : List (Piece μ)}
    (derives : Derives spelling ts ps) (labels : spelling.Labels label) (simple : ¬ Repeats ps) :
    (metavariables ps).map label = (sigilsOfAll ts).map Sigil.ident := by
  induction derives with
  | nil => rfl
  | token plain _ ih =>
    have later := fun repeats => simple (repeats_cons_iff.mpr (.inr (.inr repeats)))
    rw [sigilsOfAll_cons_of_plain plain, ← ih later]
    rfl
  | @group _ _ _ _ content _ _ _ within ih =>
    have later := fun repeats => simple (repeats_cons_iff.mpr (.inr (.inr repeats)))
    have own := within fun repeats =>
      simple (repeats_cons_iff.mpr (.inr (.inl ⟨content, rfl, repeats⟩)))
    rw [sigilsOfAll_cons_group, List.map_append, ← own, ← ih later, ← List.map_append]
    rfl
  | @metavariable joint sign words ts m ps spells _ ih =>
    have later := fun repeats => simple (repeats_cons_iff.mpr (.inr (.inr repeats)))
    obtain ⟨s, named, first⟩ := spells.sigil labels joint sign ts
    rw [first, List.map_cons, named, ← ih later]
    rfl
  | @repetition _ _ _ parentheses _ _ _ _ _ content =>
    exact absurd (repeats_cons_iff.mpr (.inl ⟨content, parentheses, rfl⟩)) simple

end Piece

/-! ## Where they stand in a text -/

namespace TokenTree

open Token

theorem sigil?_eq_some {t : TokenTree} {ts : List TokenTree} {s : Sigil}
    (found : sigil? t ts = some s) : ∃ joint later, t = .punct '$' joint s.sign ∧
      ts = .ident s.spelling s.name :: later := by
  unfold sigil? at found
  split at found
  · cases found
    exact ⟨_, _, rfl, rfl⟩
  · cases found

theorem eq_of_leaf?_punct {l : PlacedLexeme} {c : Char} {joint : Bool} {extent : Extent}
    (single : leaf? l = some (.punct c joint extent)) : l = ⟨.punct c joint, extent⟩ := by
  unfold leaf? at single
  split at single <;> cases single
  rfl

/-- The two parts of a metavariable are lexemes in a row. -/
theorem Reads.sigil {lexemes : List PlacedLexeme} {ts : List TokenTree} (reads : Reads lexemes ts)
    {s : Sigil} (member : s ∈ sigilsOfAll ts) :
    ∃ before joint after, lexemes = before ++ ⟨.punct '$' joint, s.sign⟩ ::
      ⟨.ident s.spelling, s.name⟩ :: after := by
  induction reads with
  | done => cases member
  | @leaf l t rest ts single later ih =>
    have own : t.sigils = [] := by
      unfold leaf? at single
      split at single <;> cases single <;> rfl
    simp only [sigilsOfAll, own, List.nil_append, List.mem_append, Option.mem_toList] at member
    rcases member with begun | among
    · obtain ⟨joint, _, rfl, rfl⟩ := sigil?_eq_some begun
      cases later with
      | leaf next _ =>
        rw [eq_of_leaf?_punct single, eq_of_leaf?_ident next]
        exact ⟨[], joint, _, rfl⟩
    · obtain ⟨before, joint, after, rfl⟩ := ih among
      exact ⟨l :: before, joint, after, rfl⟩
  | @group d first last inner rest content ts _ _ within later =>
    rw [sigilsOfAll_cons_group, List.mem_append] at member
    rcases member with own | among
    · obtain ⟨before, joint, after, rfl⟩ := within own
      exact ⟨⟨.opening d, first⟩ :: before, joint, after ++ ⟨.closing d, last⟩ :: rest, by simp⟩
    · obtain ⟨before, joint, after, rfl⟩ := later among
      exact ⟨⟨.opening d, first⟩ :: (inner ++ ⟨.closing d, last⟩ :: before), joint, after, by simp⟩

end TokenTree

namespace Token

open Text Lexeme

theorem eq_cons_of_punct? {cs rest : List Char} {c : Char} {joint : Bool}
    (read : punct? cs = some (.punct c joint, rest)) : cs = c :: rest := by
  unfold punct? at read
  split at read
  · split at read <;> cases read
    rfl
  · split at read <;> cases read
    rfl
  · cases read

/-- No doc comment stands for a `$`. -/
theorem sign_solitary (doc : DocComment) (joint : Bool) : .punct '$' joint ∉ ofDocComment doc := by
  obtain ⟨inner, _, _⟩ := doc
  cases inner <;> simp [ofDocComment]

end Token

/-- A metavariable as it stands in a text: a `$`, then what separates it from its name, then the
name. -/
structure Sigil.Written (s : Sigil) (text before gap after : List Char) : Prop where
  whole : text = before ++ '$' :: (gap ++ (s.spelling.toList ++ after))
  place : s.sign.start.offset = Text.byteSize before
  /-- There are only blanks and comments in between. -/
  apart : Text.skipSeparators (gap ++ (s.spelling.toList ++ after)) = s.spelling.toList ++ after
  word : Token.Word s.ident.name.toList

/-- Each metavariable among the tokens of a text is written in the text. -/
theorem TokenTree.sigil_written {text : List Char} {tokens : List TokenTree} {s : Sigil}
    (scanned : ofText? text = some tokens) (member : s ∈ sigilsOfAll tokens) :
    ∃ before gap after, s.Written text before gap after := by
  obtain ⟨mark, code, lexemes, rfl, -, scans, reads⟩ := ofText?_eq_some scanned
  obtain ⟨early, joint, late, rfl⟩ := reads.sigil member
  obtain ⟨front, rest, rfl, own⟩ := scans.from_solitary fun doc => Token.sign_solitary doc joint
  obtain ⟨blank, taken, rest, rfl, -, place, sign, behind⟩ := own.first_plain (by simp)
  have starts := Token.eq_cons_of_punct? (Token.punct?_of_plain? sign)
  obtain rfl : taken = ['$'] := List.append_cancel_right starts
  obtain ⟨gap, name, after, rfl, apart, -, read, -⟩ := behind.first_plain (by simp)
  obtain ⟨spelled, word⟩ := Token.word_of_name? (Token.name?_of_plain? read)
  refine ⟨mark ++ front ++ blank, gap, after, ?_, ?_, ?_, word⟩
  · rw [spelled]
    simp
  · rw [show s.sign = _ from place]
    simp [Position.offset_after, Position.origin, Nat.add_assoc]
  · rw [← spelled, apart]

end MacroExpansion
