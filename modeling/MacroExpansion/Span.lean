/-!
# Source locations

A location is a place in a file, together with the places of the invocations it was expanded from,
the nearest first. Locations made during an expansion keep one such place only: that of the
outermost invocation.
-/
namespace MacroExpansion

/-- A stretch of a file. Lines count from 1, columns count characters from 0. -/
structure Place where
  file : String
  startLine : Nat
  startColumn : Nat
  endLine : Nat
  endColumn : Nat
  deriving DecidableEq, Repr

namespace Place

/-- The printed form, `file[line:column-line:column]`. -/
def text (p : Place) : String :=
  p.file ++ "[" ++ toString p.startLine ++ ":" ++ toString p.startColumn ++ "-" ++
    toString p.endLine ++ ":" ++ toString p.endColumn ++ "]"

end Place

/-- A place, and the places of the invocations that produced it. -/
structure Span where
  place : Place
  outer : List Place
  deriving DecidableEq, Repr

namespace Span

/-- The location of something that was never read from a file. -/
def fake : Span :=
  ⟨⟨"fake_file.rs", 0, 0, 0, 0⟩, []⟩

/-- The invocation a location was expanded from. -/
def invocation? (s : Span) : Option Span :=
  match s.outer with
  | [] => none
  | p :: ps => some ⟨p, ps⟩

/-- The invocations kept by a location that is expanded from `invocation`: its own, if it has any,
and otherwise itself. -/
def outermost (invocation : Option Span) : List Place :=
  match invocation with
  | none => []
  | some s => if s.outer = [] then [s.place] else s.outer

/-- A place that is expanded from `invocation`. -/
def within (invocation : Option Span) (place : Place) : Span :=
  ⟨place, outermost invocation⟩

/-- The printed form. A location with an invocation shows that invocation's place. -/
def text (s : Span) : String :=
  match s.outer with
  | [] => s.place.text
  | p :: _ => "macro invocation at " ++ p.text

/-- Expanding from a location with at most one invocation gives one with exactly one. -/
theorem length_outermost (s : Span) (h : s.outer.length ≤ 1) :
    (outermost (some s)).length = 1 := by
  cases ho : s.outer with
  | nil => simp [outermost, ho]
  | cons p ps =>
    rw [ho, List.length_cons] at h
    simp only [outermost, ho, reduceCtorEq, if_false, List.length_cons]
    omega

end Span

end MacroExpansion
