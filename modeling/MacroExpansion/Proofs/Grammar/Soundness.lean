import MacroExpansion.Definition.RuleSet
import MacroExpansion.Expansion.LazyStatic
import MacroExpansion.Proofs.Grammar.Items

/-!
# Texts that are read to a verdict

Two things in a text break its reading off: a literal that has no value, and a function type that
takes a `mut self`. Main statement: each text that has neither is read or refused, by every rule.
-/
namespace MacroExpansion

open Grammar

/-- A function type that takes a `mut self` starts here. -/
def TokenTree.takesReceiver : TokenTree → List TokenTree → Bool
  | .ident "fn" _, .group .paren content _ :: _ => hasReceiver content
  | _, _ => false

mutual

/-- Each literal in a token has a value, and no function type takes a `mut self`. -/
def TokenTree.isSound : TokenTree → Bool
  | .literal spelling _ => (LiteralShape.ofSpelling? spelling.toList).isSome
  | .group _ content _ => TokenTree.allSound content
  | _ => true

/-- Each literal in some tokens has a value, and no function type takes a `mut self`. -/
def TokenTree.allSound : List TokenTree → Bool
  | [] => true
  | t :: ts => t.isSound && !t.takesReceiver ts && TokenTree.allSound ts

end

/-- No token of a text breaks its reading off. -/
def Text.Sound (text : List Char) : Prop :=
  ∀ tokens, TokenTree.ofText? text = some tokens → TokenTree.allSound tokens = true

instance (text : List Char) : Decidable (Text.Sound text) :=
  decidable_of_iff ((TokenTree.ofText? text).all TokenTree.allSound = true)
    (Option.all_eq_true _ _)

namespace Grammar

open TokenTree

variable {α : Type}

/-- Tokens that do not break the reading off. -/
def Fit (tokens : List TokenTree) : Prop :=
  allSound tokens = true

theorem fit_cons {t : TokenTree} {ts : List TokenTree} :
    Fit (t :: ts) ↔ (t.isSound = true ∧ t.takesReceiver ts = false) ∧ Fit ts := by
  simp [Fit, allSound]

instance : Sound Fit where
  tail _ _ fits := (fit_cons.mp fits).2
  content _ _ _ _ fits := (fit_cons.mp fits).1.1
  valued fits := (fit_cons.mp fits).1.1
  receiverless fits := (fit_cons.mp fits).1.2

/-- A parser that comes to a verdict on all tokens that are sound. -/
def Settles (p : Parser α) : Prop :=
  ∀ c, Fit c.rest → p c ≠ .error .aborted

theorem Tracks.settles {free : Bool} {R : α → α → Prop} {p q : Parser α}
    (h : Tracks Fit free R p q) : Settles p :=
  fun _ fits => h.unbroken fits

/-- A text without anything that breaks its reading off is read or refused. -/
theorem parseText_settles {p : Rules → Parser α} {text : List Char}
    (settles : ∀ depth, Settles (p (rules depth))) (sound : Text.Sound text) :
    parseText p text ≠ .error .aborted := by
  unfold parseText
  cases scanned : ofText? text with
  | none => exact fun broken => by cases broken
  | some tokens =>
    change parseAll (p (rulesFor tokens)) tokens ≠ _
    have verdict : p (rulesFor tokens) ⟨tokens, false, none⟩ ≠ .error .aborted :=
      settles _ _ (sound tokens scanned)
    unfold parseAll
    cases read : p (rulesFor tokens) ⟨tokens, false, none⟩ with
    | error failure =>
      rw [read] at verdict
      intro broken
      cases broken
      exact verdict rfl
    | ok result =>
      obtain ⟨a, rest, displaced, last⟩ := result
      cases rest <;> exact fun broken => by cases broken

theorem tracked (depth : Nat) :
    Rules.Tracked Fit (rules depth) (rules depth) :=
  tracked_rules (Nat.le_refl depth)

theorem parseFile_settles {code : List Char} (sound : Text.Sound code) :
    parseFile code ≠ .error .aborted := by
  refine parseText_settles (fun depth => ?_) sound
  have := tracked depth
  have items : Tracks Fit false Any
      (fileItems (rules depth)) (fileItems (rules depth)) := by
    unfold fileItems
    infer_instance
  exact items.settles

theorem parseCall_settles {text : List Char} (sound : Text.Sound text) :
    parseCall text ≠ .error .aborted :=
  parseText_settles (fun _ => (Tracks.macroCall : Tracks _ false _ _ _).settles) sound

theorem lazyStatic_settles {text : List Char} (sound : Text.Sound text) :
    parseText lazyStatic text ≠ .error .aborted := by
  refine parseText_settles (fun depth => ?_) sound
  have := tracked depth
  have declaration : Tracks Fit false Any
      (lazyStatic (rules depth)) (lazyStatic (rules depth)) := by
    unfold lazyStatic
    have stretch : Tracks Fit false (OnFirst Eq) (placed (keyword "ref"))
        (placed (keyword "ref")) := inferInstance
    refine .seq fun _ => .seq fun _ => .seq fun _ => stretch.bind fun mark mark' _ => ?_
    obtain ⟨_, mark⟩ := mark
    obtain ⟨_, mark'⟩ := mark'
    exact .seq fun _ => .seq fun _ => .seq fun _ => .seq fun _ =>
      (Tracks.expression true).bind fun _ _ _ => .seq fun _ => .pure_of trivial
  exact declaration.settles

end Grammar

theorem RuleSet.parse_settles {text : List Char} (sound : Text.Sound text) :
    RuleSet.parse text ≠ .error .aborted := by
  refine parseText_settles (fun _ c fits broken => ?_) sound
  have attributes : Tracks Fit false Eq outerAttributes outerAttributes := inferInstance
  rcases of_bind_aborted broken with early | ⟨_, d, early, broken⟩
  · exact attributes.unbroken fits early
  obtain ⟨taken, took⟩ := attributes.reads early
  rw [took.ahead] at fits
  have call : Closes Fit Tracks.AlikeNamed callItem callItem := Closes.callItem
  rcases of_bind_aborted broken with late | ⟨named, _, _, broken⟩
  · exact call.unbroken (Hereditary.suffix fits) late
  · cases made : RuleSet.ofCall named with
    | ok rules =>
      simp only [made] at broken
      cases broken
    | error cause =>
      simp only [made] at broken
      cases broken

end MacroExpansion
