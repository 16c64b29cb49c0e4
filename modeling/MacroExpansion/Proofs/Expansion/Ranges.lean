import Mathlib.Data.List.TakeWhile
import MacroExpansion.Proofs.Expansion.Units
import MacroExpansion.Tree.Walk

/-!
# Cutting with and without a preamble

Positions of items count from the end of a text's preamble. A scratch unit moves them by the bytes
of the preamble and cuts the whole text; a walk cuts the text without its preamble. Main statement:
the preamble is whole characters of a single line, and both ways of cutting give the same, also for
ranges that lie outside of the text or start within a character.
-/
namespace MacroExpansion

open Text

/-- Lines count line breaks. -/
theorem Position.line_after (p : Position) (cs : List Char) :
    (p.after cs).line = p.line + cs.count '\n' := by
  induction cs generalizing p with
  | nil => simp
  | cons c cs ih =>
    rw [Position.after_cons, ih, Position.next, List.count_cons]
    split
    next lineBreak =>
      simp only [lineBreak, beq_self_eq_true, if_true]
      omega
    next plain => simp [plain]

namespace Text

theorem dropByteOrderMark_unbroken (cs : List Char) :
    ∃ mark, cs = mark ++ dropByteOrderMark cs ∧ '\n' ∉ mark := by
  cases cs with
  | nil => exact ⟨[], rfl, List.not_mem_nil⟩
  | cons c cs =>
    rw [dropByteOrderMark]
    split
    next mark =>
      rw [mark]
      exact ⟨[byteOrderMark], rfl, by decide⟩
    next => exact ⟨[], rfl, List.not_mem_nil⟩

/-- The line break of an interpreter line stays. -/
theorem dropInterpreterLine_unbroken (skip : List Char → List Char) (cs : List Char) :
    ∃ line, cs = line ++ dropInterpreterLine skip cs ∧ '\n' ∉ line := by
  unfold dropInterpreterLine
  split
  next rest =>
    split
    next => exact ⟨[], rfl, List.not_mem_nil⟩
    next =>
      refine ⟨('#' :: '!' :: rest).takeWhile (· != '\n'),
        List.takeWhile_append_dropWhile.symm, fun broken => ?_⟩
      simpa using List.mem_takeWhile_imp broken
  next => exact ⟨[], rfl, List.not_mem_nil⟩

/-- A preamble ends where a character ends, and its line goes on behind it. -/
theorem stripPreamble_unbroken (cs : List Char) :
    ∃ preamble, cs = preamble ++ stripPreamble cs ∧ '\n' ∉ preamble := by
  obtain ⟨mark, marked, unmarked⟩ := dropByteOrderMark_unbroken cs
  obtain ⟨line, ends, unbroken⟩ :=
    dropInterpreterLine_unbroken skipTrivia (dropByteOrderMark cs)
  refine ⟨mark ++ line, ?_, ?_⟩
  · rw [List.append_assoc]
    unfold stripPreamble
    rw [← ends]
    exact marked
  · rw [List.mem_append]
    exact not_or.mpr ⟨unmarked, unbroken⟩

end Text

/-- Every text is a preamble, of whole characters and without a line break, and what is left of it;
the lines of that have the numbers that they have in the whole text. A range of what is left, moved
by the bytes of the preamble, cuts the same out of the whole text, or nothing from both. So an item
of a scratch unit has the text that it has in the walk of a file with the same content. -/
theorem preamble_moves_ranges (s : List Char) :
    byteSize (stripPreamble s) ≤ byteSize s ∧
    let code := stripPreamble s
    let p := byteSize s - byteSize code
    (∃ preamble, s = preamble ++ code ∧ byteSize preamble = p ∧ '\n' ∉ preamble ∧
      ∀ ahead, (Position.origin.after (preamble ++ ahead)).line =
        (Position.origin.after ahead).line) ∧
    (∀ a b, slice? s (a + p) (b + p) = slice? code a b) ∧
    ∀ fileName u, (ScratchUnit.parse fileName s).result = .ok u →
      u.preamble = p ∧
        ∀ file, SourceTree.parse file s = .ok (SourceTree.ofItems file code u.items) ∧
          ∀ i ∈ u.items, u.textOf? i.head = i.head.textIn? code := by
  obtain ⟨preamble, whole, unbroken⟩ := stripPreamble_unbroken s
  have long : byteSize s = byteSize preamble + byteSize (stripPreamble s) := by
    conv_lhs => rw [whole, byteSize_append]
  have bytes : byteSize preamble = byteSize s - byteSize (stripPreamble s) := by omega
  refine ⟨by omega, ?_⟩
  intro code p
  refine ⟨⟨preamble, whole, bytes, unbroken, fun ahead => ?_⟩, fun a b => ?_, ?_⟩
  · rw [Position.line_after, Position.line_after, List.count_append,
      List.count_eq_zero.mpr unbroken, Nat.zero_add]
  · have moved := slice?_append_right preamble code a b
    rw [← whole, bytes, Nat.add_comm _ a, Nat.add_comm _ b] at moved
    exact moved
  · intro fileName u parsed
    rw [ScratchUnit.result_parse] at parsed
    obtain ⟨items, read, rfl⟩ := Attempt.of_map_ok parsed
    refine ⟨rfl, fun file => ⟨?_, fun i _ => ScratchUnit.textOf?_eq _ i.head⟩⟩
    rw [SourceTree.parse, read]
    rfl

/-- A struct behind a byte-order mark and an interpreter line. -/
theorem preamble_moves_ranges_marked :
    let s := "\ufeff#!/bin/run\nstruct A;".toList
    ∃ u, (ScratchUnit.parse "a.rs" s).result = .ok u ∧ u.items ≠ [] ∧ u.preamble = 13 ∧
      (∀ a b, slice? s (a + 13) (b + 13) = slice? "\nstruct A;".toList a b) ∧
      ∀ i ∈ u.items, u.textOf? i.head = i.head.textIn? "\nstruct A;".toList := by
  intro s
  have given : (Grammar.parseFile (codeOf s)).toOption.any (fun items => !items.isEmpty) =
      true := by
    decide +kernel
  obtain ⟨items, found, filled⟩ := Option.any_eq_true _ _ |>.mp given
  have parsed : (ScratchUnit.parse "a.rs" s).result = .ok ⟨"a.rs", s, items⟩ := by
    rw [ScratchUnit.result_parse, Attempt.of_toOption found]
    rfl
  have code : stripPreamble s = "\nstruct A;".toList := by decide +kernel
  have bytes : byteSize s - byteSize (stripPreamble s) = 13 := by decide +kernel
  obtain ⟨-, -, ranges, units⟩ := preamble_moves_ranges s
  obtain ⟨moved, alike⟩ := units "a.rs" _ parsed
  rw [code] at alike
  rw [bytes] at ranges moved
  rw [code] at ranges
  exact ⟨_, parsed, by simpa using filled, moved, ranges, (alike "a.rs").2⟩

end MacroExpansion
