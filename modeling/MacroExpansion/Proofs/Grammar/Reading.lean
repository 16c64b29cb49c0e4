import MacroExpansion.Grammar.File

/-!
# What was read

A parser that gave a value has done so step by step, and each step tells of the tokens ahead. From
this the values of larger parsers follow. Main statement: a rule set that was read as an item has a
name, which is no underscore.
-/
namespace MacroExpansion

/-- A name stands where a rule set needs one. -/
def Item.Named : Item → Prop
  | ruleSet _ spelling => spelling ≠ "_"
  | _ => True

/-- The grammar reads it somewhere, however deep. -/
def Item.Parsed (i : Item) : Prop :=
  ∃ depth before after, (Grammar.rules depth).item before = .ok (i, after)

namespace Grammar

variable {α β : Type} {before after : Cursor}

/-! ## Steps that were taken -/

theorem of_bind {p : Parser α} {f : α → Parser β} {b : β}
    (h : (p >>= f) before = .ok (b, after)) :
    ∃ a mid, p before = .ok (a, mid) ∧ f a mid = .ok (b, after) := by
  obtain ⟨⟨a, mid⟩, read, later⟩ := Attempt.of_bind_ok h
  exact ⟨a, mid, read, later⟩

theorem of_peek {look : Look} {seen : Bool} (h : peek look before = .ok (seen, after)) :
    seen = look before.rest ∧ after = before := by
  cases h
  exact ⟨rfl, rfl⟩

/-- What has to stand ahead does so. -/
theorem of_unless {look : Look} {p : Parser α} {a : α}
    (h : (do
      unless ← peek look do refuse
      p) before = .ok (a, after)) : look before.rest = true ∧ p before = .ok (a, after) := by
  obtain ⟨seen, mid, looked, h⟩ := of_bind h
  obtain ⟨rfl, rfl⟩ := of_peek looked
  split at h
  next ahead => exact ⟨ahead, h⟩
  next =>
    obtain ⟨_, _, refused, _⟩ := of_bind h
    cases refused

theorem of_tree {t : TokenTree} (h : tree before = .ok (t, after)) :
    before.rest = t :: after.rest := by
  unfold tree at h
  split at h
  · cases h
  next ahead =>
    cases h
    exact ahead

theorem of_word {spelling : String} (h : word before = .ok (spelling, after)) :
    ∃ extent, before.rest = .ident spelling extent :: after.rest := by
  obtain ⟨t, mid, read, given⟩ := of_bind h
  split at given
  next extent =>
    cases given
    exact ⟨extent, of_tree read⟩
  next => cases given

theorem of_name {spelling : String} (h : name before = .ok (spelling, after)) :
    spelling ∉ reserved ∧ ∃ extent, before.rest = .ident spelling extent :: after.rest := by
  obtain ⟨free, h⟩ := of_unless h
  obtain ⟨extent, ahead⟩ := of_word h
  rw [ahead] at free
  exact ⟨by simpa [Look.name] using free, extent, ahead⟩

theorem of_parseAll {p : Parser α} {tokens : List TokenTree} {a : α}
    (h : parseAll p tokens = .ok a) :
    ∃ after, p ⟨tokens, false, none⟩ = .ok (a, after) ∧ after.rest = [] := by
  obtain ⟨⟨b, after⟩, read, h⟩ := Attempt.of_bind_ok h
  split at h
  next same =>
    cases h
    cases same
    exact ⟨_, read, rfl⟩
  next => cases h

theorem of_parseText {p : Rules → Parser α} {cs : List Char} {a : α}
    (h : parseText p cs = .ok a) :
    ∃ tokens, TokenTree.ofText? cs = some tokens ∧
      parseAll (p (rulesFor tokens)) tokens = .ok a := by
  obtain ⟨tokens, scanned, h⟩ := Attempt.of_bind_ok h
  refine ⟨tokens, ?_, h⟩
  cases found : TokenTree.ofText? cs with
  | none =>
    rw [found] at scanned
    cases scanned
  | some given =>
    rw [found] at scanned
    cases scanned
    rfl

/-! ## Values of all readings -/

/-- Whatever `p` gives is as told. -/
def Ensures (p : Parser α) (told : α → Prop) : Prop :=
  ∀ before a after, p before = .ok (a, after) → told a

namespace Ensures

variable {told : α → Prop} {given : β → Prop}

theorem refuse : Ensures (refuse : Parser α) told :=
  fun _ _ _ read => by cases read

theorem pure {a : α} (h : told a) : Ensures (pure a) told :=
  fun _ _ _ read => by
    cases read
    exact h

theorem bind {p : Parser β} {f : β → Parser α} (h : ∀ b, Ensures (f b) told) :
    Ensures (p >>= f) told :=
  fun _ _ _ read => by
    obtain ⟨b, mid, _, later⟩ := of_bind read
    exact h b _ _ _ later

/-- What follows may rest on what was told of the first value. -/
theorem bind_of {p : Parser β} {f : β → Parser α} (first : Ensures p given)
    (h : ∀ b, given b → Ensures (f b) told) : Ensures (p >>= f) told :=
  fun _ _ _ read => by
    obtain ⟨b, mid, early, later⟩ := of_bind read
    exact h b (first _ _ _ early) _ _ _ later

theorem roundsWithin {round : β → Parser (β × Bool)}
    (step : ∀ b, given b → Ensures (round b) fun next => given next.1) (n : Nat) :
    ∀ b, given b → Ensures (roundsWithin round n b) given := by
  induction n with
  | zero => exact fun _ _ => refuse
  | succ n ih =>
    intro b holds
    refine bind_of (step b holds) fun next later => ?_
    obtain ⟨b, again⟩ := next
    cases again with
    | true => exact ih b later
    | false => exact pure later

/-- What is read until something stands ahead is read one by one. -/
theorem untilStop {p : Parser β} (each : Ensures p given) (stop : Look) :
    Ensures (untilStop stop p) fun read => ∀ b ∈ read, given b := by
  have loop : Ensures (rounds (fun read : List β => do
      if ← peek stop then return (read, false)
      let b ← p
      return (b :: read, true)) []) fun read => ∀ b ∈ read, given b := by
    refine bind fun _ => roundsWithin (fun read holds => ?_) _ _ (fun _ member => by cases member)
    refine bind fun seen => ?_
    split
    · exact pure holds
    · exact bind_of each fun b told => pure (List.forall_mem_cons.mpr ⟨told, holds⟩)
  exact bind_of loop fun read holds => pure fun b member => holds b (List.mem_reverse.mp member)

theorem placed {p : Parser α} (h : Ensures p told) :
    Ensures (placed p) fun read => told read.1 :=
  bind fun _ => bind_of h fun _ holds => bind fun _ => pure holds

theorem untilEnd {p : Parser β} (each : Ensures p given) :
    Ensures (untilEnd p) fun read => ∀ b ∈ read, given b :=
  untilStop each Look.nothing

end Ensures

/-! ## Items -/

/-- The name that a call gives is a name. -/
theorem ensures_namedCall :
    Ensures namedCall fun named => ∀ spelling ∈ named.name, spelling ≠ "_" := by
  have underscore : "_" ∈ reserved := by decide
  have free : Ensures name fun spelling => spelling ≠ "_" := fun _ _ _ read same =>
    (of_name read).1 (same ▸ underscore)
  have given : Ensures (some <$> name) fun read => ∀ spelling ∈ read, spelling ≠ "_" := by
    rw [← bind_pure_comp]
    exact .bind_of free fun spelling told => .pure fun other same => by
      cases same
      exact told
  refine .bind fun _ => .bind fun _ => .bind fun _ => .bind fun ahead => ?_
  cases ahead with
  | true =>
    refine .bind_of given fun read told => .bind fun _ => ?_
    exact .pure told
  | false =>
    have nothing : Ensures (pure none) fun read : Option String =>
        ∀ spelling ∈ read, spelling ≠ "_" := .pure fun _ member => by cases member
    refine .bind_of nothing fun read told => .bind fun _ => ?_
    exact .pure told

theorem named_itemOfCall {named : NamedCall} (h : ∀ spelling ∈ named.name, spelling ≠ "_")
    (head : ItemHead) : (itemOfCall head named.call named.name).Named := by
  unfold itemOfCall
  split
  · cases found : named.name with
    | none => trivial
    | some spelling => exact h spelling found
  · trivial

/-- An item is named, whatever its head. -/
def ItemBody.Named (body : ItemBody) : Prop :=
  ∀ head, (body.build head).Named

/-- Only a call may define a rule set, and its name was read as one. -/
theorem named_itemBody (r : Rules) : Ensures (itemBody r) ItemBody.Named := by
  refine .bind fun form => ?_
  cases form with
  | call =>
    have call : Ensures callItem fun named => ∀ spelling ∈ named.name, spelling ≠ "_" := by
      refine .bind_of ensures_namedCall fun named told => ?_
      split
      · exact .bind fun _ => .pure told
      · exact .pure told
    exact .bind_of call fun named told => .pure (named_itemOfCall told)
  | _ =>
    -- every way through another form ends in an item that is no rule set
    simp only [functionItem, externCrateItem, foreignBlockItem, useItem, staticItem, constItem,
      moduleItem, unsafeItem, typeAliasItem, dataItem, traitItem, implementationItem, rulesItem]
    repeat' first
      | with_reducible refine Ensures.bind fun _ => ?_
      | with_reducible exact Ensures.refuse
      | split
      | exact Ensures.pure fun _ => trivial

theorem named_item (r : Rules) : Ensures (item r) Item.Named := by
  have content : Ensures (do
      let attributes ← outerAttributes
      return (attributes, ← itemBody r)) fun read => read.2.Named :=
    .bind fun _ => .bind_of (named_itemBody r) fun _ holds => .pure holds
  refine .bind fun _ => .bind_of content.placed fun ((attributes, body), extent) holds => ?_
  exact .bind fun _ => .pure (holds _)

/-- An item that was read is named. -/
theorem named_of_parsed {i : Item} (parsed : i.Parsed) : i.Named := by
  obtain ⟨depth, before, after, read⟩ := parsed
  cases depth with
  | zero => cases read
  | succ depth => exact named_item (rules depth) before i after read

/-- The items of a file were read one by one. -/
theorem parsed_of_parseFile {code : List Char} {items : List Item}
    (parsed : parseFile code = .ok items) : ∀ i ∈ items, i.Parsed := by
  obtain ⟨tokens, _, read⟩ := of_parseText parsed
  obtain ⟨after, read, _⟩ := of_parseAll read
  have each : Ensures (rulesFor tokens).item Item.Parsed := fun _ _ _ read => ⟨_, _, _, read⟩
  exact (Ensures.bind fun _ => each.untilEnd) _ _ _ read

end Grammar

end MacroExpansion
