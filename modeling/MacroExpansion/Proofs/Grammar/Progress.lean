import MacroExpansion.Proofs.Grammar.Reading

/-!
# What a parser leaves

A parser goes through the tokens of its level from the first on: what it leaves is the end of what
it was given. Main statement: the group of an invocation is one of the tokens that were read.
-/
namespace MacroExpansion.Grammar

variable {α β : Type}

/-- What is left is the end of what was ahead. -/
def Advances (p : Parser α) : Prop :=
  ∀ before a after, p before = .ok (a, after) → after.rest <:+ before.rest

namespace Advances

theorem refuse : Advances (refuse : Parser α) :=
  fun _ _ _ read => by cases read

theorem pure (a : α) : Advances (pure a) :=
  fun _ _ _ read => by
    cases read
    exact List.suffix_rfl

theorem get : Advances (get : Parser Cursor) :=
  fun _ _ _ read => by
    cases read
    exact List.suffix_rfl

theorem bind {p : Parser β} {f : β → Parser α} (first : Advances p) (h : ∀ b, Advances (f b)) :
    Advances (p >>= f) :=
  fun _ _ _ read => by
    obtain ⟨b, _, early, later⟩ := of_bind read
    exact (h b _ _ _ later).trans (first _ _ _ early)

theorem peek (look : Look) : Advances (peek look) :=
  fun _ _ _ read => by
    obtain ⟨_, rfl⟩ := of_peek read
    exact List.suffix_rfl

theorem guarded {look : Look} {p : Parser α} (h : Advances p) :
    Advances (do
      unless ← Grammar.peek look do Grammar.refuse
      p) :=
  fun _ _ _ read => h _ _ _ (of_unless read).2

theorem tree : Advances tree :=
  fun _ _ _ read => by
    rw [of_tree read]
    exact List.suffix_cons _ _

theorem trees (n : Nat) : Advances (trees n) := by
  induction n with
  | zero => exact pure ()
  | succ n ih => exact tree.bind fun _ => ih

theorem symbol (text : String) : Advances (symbol text) :=
  .guarded (.trees _)

theorem symbol? (text : String) : Advances (symbol? text) := by
  refine (peek _).bind fun ahead => ?_
  split
  · exact (trees _).bind fun _ => pure true
  · exact pure false

theorem word : Advances word := by
  refine tree.bind fun t => ?_
  split
  · exact pure _
  · exact refuse

theorem name : Advances name :=
  .guarded word

theorem delimited (delimiter : Delimiter) (content : Parser α) :
    Advances (delimited delimiter content) := by
  refine .guarded (tree.bind fun t => ?_)
  split
  · split
    · exact pure _
    · exact refuse
    · exact fun _ _ _ read => by cases read
  · exact refuse

theorem rounds {round : β → Parser (β × Bool)} (step : ∀ b, Advances (round b)) (b : β) :
    Advances (rounds round b) := by
  have within (n : Nat) : ∀ b, Advances (roundsWithin round n b) := by
    induction n with
    | zero => exact fun _ => refuse
    | succ n ih =>
      refine fun b => (step b).bind fun (next, again) => ?_
      cases again with
      | true => exact ih next
      | false => exact pure next
  exact get.bind fun _ => within _ b

theorem untilStop {p : Parser β} (each : Advances p) (stop : Look) :
    Advances (untilStop stop p) := by
  refine (rounds (fun read => (peek stop).bind fun seen => ?_) []).bind fun _ => pure _
  split
  · exact pure _
  · exact each.bind fun _ => pure _

/-! ## Attributes and invocations -/

theorem outerAttributes : Advances outerAttributes :=
  untilStop ((symbol "#").bind fun _ => (delimited _ _).bind fun _ => pure _) _

theorem plainPath : Advances plainPath := by
  have segments : Advances plainPath.separatedSegments :=
    (rounds (fun _ => .guarded (word.bind fun _ => (symbol? "::").bind fun _ => pure _)) []).bind
      fun _ => pure _
  exact (symbol? "::").bind fun _ => segments.bind fun _ => pure _

end Advances

variable {before after : Cursor}

theorem of_anyGroup {delimiter : Delimiter} {content : List TokenTree} {extent : Extent}
    (h : anyGroup before = .ok ((delimiter, content, extent), after)) :
    before.rest = .group delimiter content extent :: after.rest := by
  obtain ⟨t, mid, read, given⟩ := of_bind h
  split at given
  · cases given
    exact of_tree read
  · cases given

/-- The group of an invocation is among the tokens ahead. -/
theorem mem_of_namedCall {named : NamedCall} (h : namedCall before = .ok (named, after)) :
    .group named.call.delimiter named.call.body named.call.group ∈ before.rest := by
  have spelled : Advances (some <$> name) := by
    rw [← bind_pure_comp]
    exact Advances.name.bind fun _ => .pure _
  obtain ⟨start, placed, atStart, h⟩ := of_bind h
  obtain ⟨path, past, atPath, h⟩ := of_bind h
  obtain ⟨_, marked, atMark, h⟩ := of_bind h
  obtain ⟨ahead, seen, looked, h⟩ := of_bind h
  have upTo : seen.rest <:+ before.rest :=
    (Advances.peek _ _ _ _ looked).trans <| (Advances.symbol _ _ _ _ atMark).trans <|
      (Advances.plainPath _ _ _ atPath).trans <|
        (Advances.get.bind fun _ => Advances.pure _) _ _ _ atStart
  have grouped {mid : Cursor} {delimiter : Delimiter} {body : List TokenTree} {group : Extent}
      (later : mid.rest <:+ seen.rest)
      (found : anyGroup mid = .ok ((delimiter, body, group), after)) :
      .group delimiter body group ∈ before.rest := by
    refine (later.trans upTo).subset ?_
    rw [of_anyGroup found]
    exact List.mem_cons_self
  cases ahead with
  | true =>
    obtain ⟨spelling, mid, read, h⟩ := of_bind h
    obtain ⟨_, _, found, h⟩ := of_bind h
    cases h
    exact grouped (spelled _ _ _ read) found
  | false =>
    obtain ⟨spelling, mid, read, h⟩ := of_bind h
    obtain ⟨_, _, found, h⟩ := of_bind h
    cases h
    exact grouped (Advances.pure _ _ _ _ read) found

theorem mem_of_callItem {named : NamedCall} (h : callItem before = .ok (named, after)) :
    .group named.call.delimiter named.call.body named.call.group ∈ before.rest := by
  obtain ⟨call, _, called, ended⟩ := of_bind h
  have same : call = named := by
    split at ended
    · obtain ⟨_, _, _, given⟩ := of_bind ended
      cases given
      rfl
    · cases ended
      rfl
  rw [← same]
  exact mem_of_namedCall called

end MacroExpansion.Grammar
