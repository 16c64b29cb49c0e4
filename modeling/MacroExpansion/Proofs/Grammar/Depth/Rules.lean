import MacroExpansion.Proofs.Grammar.Depth.Item
import MacroExpansion.Proofs.Grammar.Items

/-!
# Rules that nest deep enough

Three steps of the rules read a token: statements come to an expression that starts one, this comes
to an operand, and an operand to its first token. Main statement: on tokens that are light enough
for the rules, all rules that nest so deep do the same.
-/
namespace MacroExpansion.Grammar

open TokenTree

variable {α : Type} {n m w : Nat}

namespace Agree

/-- No tokens weigh less than nothing. -/
theorem of_zero (p q : Parser α) : Agree 0 false p q where
  same light := absurd light (Nat.not_lt_zero _)

/-- What weighs no more than `w` weighs less than the number after it. -/
theorem of_whole {p q : Parser α} (h : Agree w true p q) : Agree (w + 1) false p q where
  same light := h.same light

end Agree

/-- The rules that read a token themselves agree on a token more than those they use. -/
class AgreeFirst (w : Nat) (r r' : Rules) : Prop where
  bound : Agree w true r.bound r'.bound
  operand : ∀ structs, Agree w true (r.operand structs) (r'.operand structs)
  climb : ∀ structs left base, Agree w true (r.climb structs left base) (r'.climb structs left base)
  pattern : Agree w true r.pattern r'.pattern
  item : Agree w true r.item r'.item
  useTree : Agree w true r.useTree r'.useTree
  namedFields : Agree w true r.namedFields r'.namedFields

attribute [instance] AgreeFirst.bound AgreeFirst.operand AgreeFirst.climb AgreeFirst.item

/-- Types and expressions that start a statement use those first. -/
class AgreeSecond (w : Nat) (r r' : Rules) : Prop extends AgreeFirst w r r' where
  type : ∀ plus, Agree w true (r.type plus) (r'.type plus)
  early : Agree w true r.early r'.early

attribute [instance] AgreeSecond.early

theorem AgreeFirst.of_agree (h : Rules.Agree w (rules n) (rules m)) :
    AgreeFirst w (rules (n + 1)) (rules (m + 1)) := by
  have tracked : Rules.Tracked (fun _ => False) (rules n) (rules n) := tracked_rules (Nat.le_refl n)
  exact {
    bound := Agree.bound
    operand := Agree.operand
    climb := Agree.climb
    pattern := Agree.pattern
    item := Agree.item
    useTree := Agree.useTree
    namedFields := Agree.namedFields }

theorem AgreeSecond.of_first (h : Rules.Agree w (rules n) (rules m))
    (first : AgreeFirst w (rules n) (rules m)) :
    AgreeSecond w (rules (n + 1)) (rules (m + 1)) := by
  have tracked : Rules.Tracked (fun _ => False) (rules n) (rules n) := tracked_rules (Nat.le_refl n)
  exact {
    AgreeFirst.of_agree h with
    type := fun plus => Agree.type plus
    early := Agree.early }

/-- All rules agree on a token more. -/
theorem agree_of_second (h : Rules.Agree w (rules n) (rules m))
    (second : AgreeSecond w (rules n) (rules m))
    (again : AgreeSecond w (rules (n + 1)) (rules (m + 1))) :
    Rules.Agree (w + 1) (rules (n + 1)) (rules (m + 1)) := by
  have tracked : Rules.Tracked (fun _ => False) (rules n) (rules n) := tracked_rules (Nat.le_refl n)
  have statements : Agree w true (rules (n + 1)).statements (rules (m + 1)).statements :=
    Agree.statements
  exact {
    type := fun plus => (again.type plus).of_whole
    bound := again.bound.of_whole
    operand := fun structs => (again.operand structs).of_whole
    climb := fun structs left base => (again.climb structs left base).of_whole
    early := again.early.of_whole
    pattern := again.pattern.of_whole
    statements := statements.of_whole
    item := again.item.of_whole
    useTree := again.useTree.of_whole
    namedFields := again.namedFields.of_whole }

/-- Rules that nest three times for a token agree on so many. -/
theorem agree_rules (deep : 3 * w ≤ n) (deep' : 3 * w ≤ m) :
    Rules.Agree w (rules n) (rules m) := by
  induction w generalizing n m with
  | zero =>
    exact {
      type := fun _ => .of_zero _ _
      bound := .of_zero _ _
      operand := fun _ => .of_zero _ _
      climb := fun _ _ _ => .of_zero _ _
      early := .of_zero _ _
      pattern := .of_zero _ _
      statements := .of_zero _ _
      item := .of_zero _ _
      useTree := .of_zero _ _
      namedFields := .of_zero _ _ }
  | succ w ih =>
    obtain ⟨n, rfl⟩ : ∃ k, n = k + 3 := ⟨n - 3, by omega⟩
    obtain ⟨m, rfl⟩ : ∃ k, m = k + 3 := ⟨m - 3, by omega⟩
    have inner (k : Nat) : Rules.Agree w (rules (n + k)) (rules (m + k)) := ih (by omega) (by omega)
    have second (k : Nat) : AgreeSecond w (rules (n + k + 2)) (rules (m + k + 2)) :=
      .of_first (inner (k + 1)) (.of_agree (inner k))
    exact agree_of_second (inner 2) (second 0) (second 1)

/-- A file is read alike by all rules that nest deep enough for it. -/
theorem file_of_deep {ts : List TokenTree} (deep : 3 * (weightOfAll ts + 1) ≤ n) :
    parseAll (fileItems (rules n)) ts = parseAll (fileItems (rulesFor ts)) ts := by
  have tracked : Rules.Tracked (fun _ => False) (rules n) (rules n) := tracked_rules (Nat.le_refl n)
  have alike : Rules.Agree (weightOfAll ts + 1) (rules n) (rulesFor ts) :=
    agree_rules deep (by rw [usesPerToken]; omega)
  have same : Agree (weightOfAll ts + 1) false (fileItems (rules n)) (fileItems (rulesFor ts)) := by
    unfold fileItems
    infer_instance
  rw [parseAll, parseAll, same.same (c := ⟨ts, false, none⟩) (Nat.lt_succ_self _)]

end MacroExpansion.Grammar
