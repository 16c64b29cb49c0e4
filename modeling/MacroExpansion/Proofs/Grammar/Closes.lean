import MacroExpansion.Proofs.Grammar.Tracks

/-!
# Parsers that read an item to its end

An item ends with braces or a semicolon. What is read to there goes the same way with more tokens
after it: only the last token may be the last one of all, and after it nothing is asked of the
tokens ahead.
-/
namespace MacroExpansion.Grammar

open TokenTree

variable {α β : Type} {fit : List TokenTree → Prop} {R : α → α → Prop}

theorem Room.behind {free : Bool} {more front ts : List TokenTree}
    (h : Room free more (front ++ ts)) (nonempty : ts ≠ []) : Room free more ts :=
  h.imp_right fun ⟨isFree, ended⟩ => ⟨isFree, ended.of_append front nonempty⟩

/-- `q` does whatever `p` does, and neither reads anything. -/
class Still (R : α → α → Prop) (p q : Parser α) : Prop where
  reads : ∀ {c a d}, p c = .ok (a, d) → Took [] c d
  unbroken : ∀ {c}, p c ≠ .error .aborted
  carries : ∀ {less more c c' a d}, Sees less more c c' → p c = .ok (a, d) →
    ∃ a' d', q c' = .ok (a', d') ∧ R a a' ∧ Sees less more d d'

/-- The tokens from one cursor up to `less` end an item, and what is left at another ends with
`less` still. -/
def Held (less more : List TokenTree) (c d : Cursor) : Prop :=
  Clear true less more c ∧ ∃ left, d.rest = left ++ less

/-- `q` does on some tokens what `p` does on them, with other tokens behind them, and both read to
the end of an item. -/
class Closes (fit : List TokenTree → Prop) (R : α → α → Prop) (p q : Parser α) : Prop where
  reads : ∀ {c a d}, p c = .ok (a, d) → ∃ taken, Took taken c d ∧ Closed taken
  unbroken : ∀ {c}, fit c.rest → p c ≠ .error .aborted
  carries : ∀ {less more c c' a d}, Sees less more c c' → p c = .ok (a, d) → Held less more c d →
    ∃ a' d', q c' = .ok (a', d') ∧ R a a' ∧ Sees less more d d'

namespace Held

variable {less more : List TokenTree} {c mid d : Cursor} {taken later : List TokenTree}

/-- Between two cursors, something is still ahead. -/
theorem clear (held : Held less more c d) (early : Took taken c mid) (late : Took later mid d)
    (nonempty : later ≠ []) : Clear true less more mid := by
  obtain ⟨⟨own, ahead, room, room'⟩, left, behind⟩ := held
  have rest : mid.rest = (later ++ left) ++ less := by rw [late.ahead, behind, List.append_assoc]
  obtain rfl : own = taken ++ (later ++ left) := by
    rw [early.ahead, rest, ← List.append_assoc] at ahead
    exact (List.append_cancel_right ahead).symm
  have going : later ++ left ≠ [] := List.append_ne_nil_of_left_ne_nil nonempty _
  exact ⟨later ++ left, rest, room.behind going, room'.behind going⟩

/-- What is read after that is held as well. -/
theorem onward (held : Held less more c d) (early : Took taken c mid) (late : Took later mid d)
    (nonempty : later ≠ []) : Held less more mid d :=
  ⟨held.clear early late nonempty, held.2⟩

end Held

namespace Still

theorem pure_of {a b : α} (h : R a b) : Still R (pure a) (pure b) where
  reads h := by
    cases h
    exact .refl _
  unbroken h := by cases h
  carries sees read := by
    cases read
    exact ⟨_, _, rfl, h, sees⟩

instance pure (a : α) [Std.Refl R] : Still R (pure a) (pure a) :=
  pure_of (Std.Refl.refl a)

instance ite {condition : Prop} [Decidable condition] {p q p' q' : Parser α} [yes : Still R p q]
    [no : Still R p' q'] :
    Still R (if condition then p else p') (if condition then q else q') := by
  split
  · exact yes
  · exact no

/-- Of a cursor only the note counts. -/
theorem of_noted {f g : Cursor → Parser α}
    (later : ∀ displaced rest rest' last last',
      Still R (f ⟨rest, displaced, last⟩) (g ⟨rest', displaced, last'⟩)) :
    Still R (get >>= f) (get >>= g) where
  reads {c _ _} h := (later c.displaced c.rest c.rest c.last c.last).reads h
  unbroken {c} h := (later c.displaced c.rest c.rest c.last c.last).unbroken h
  carries {_ _ c c' _ _} sees h := by
    obtain ⟨rest', displaced', last'⟩ := c'
    obtain rfl : displaced' = c.displaced := sees.displaced
    exact (later c.displaced c.rest rest' c.last last').carries sees h

end Still

theorem took_anyGroup {c d : Cursor} {x : Delimiter × List TokenTree × Extent}
    (read : anyGroup c = .ok (x, d)) : Took [.group x.1 x.2.1 x.2.2] c d := by
  obtain ⟨t, _, read, given⟩ := of_bind read
  cases t with
  | group delimiter content extent =>
    cases given
    exact Tracks.took_tree read
  | _ => cases given

/-- A group is found in its other place, whatever follows it. -/
theorem carries_anyGroup {less more own : List TokenTree} {c c' d : Cursor}
    {x : Delimiter × List TokenTree × Extent} (sees : Sees less more c c')
    (read : anyGroup c = .ok (x, d)) (left : d.rest = own ++ less) :
    ∃ y d', anyGroup c' = .ok (y, d') ∧ Tracks.AlikeGroups x y ∧ Sees less more d d' := by
  obtain ⟨t, _, read, given⟩ := of_bind read
  cases t with
  | group delimiter content extent =>
    cases given
    obtain ⟨u, d', read', alike, sees⟩ := Tracks.carries_tree sees read left
    obtain ⟨content', extent', rfl, inside⟩ := of_seen_group alike
    exact ⟨_, d', bind_ok read', ⟨rfl, inside⟩, sees⟩
  | _ => cases given

namespace Closes

/-- What is done after the end of an item. -/
theorem followed_of {S : β → β → Prop} {p q : Parser β} {f g : β → Parser α}
    (first : Closes fit S p q) (self : Ensures p fun a => S a a)
    (later : ∀ a b, S a b → Still R (f a) (g b)) : Closes fit R (p >>= f) (q >>= g) where
  reads h := by
    obtain ⟨a, _, early, late⟩ := of_bind h
    obtain ⟨_, took, closed⟩ := first.reads early
    have whole := took.trans ((later a a (self _ _ _ early)).reads late)
    rw [List.append_nil] at whole
    exact ⟨_, whole, closed⟩
  unbroken sound h := by
    rcases of_bind_aborted h with early | ⟨a, d, early, late⟩
    · exact first.unbroken sound early
    · exact (later a a (self _ _ _ early)).unbroken late
  carries sees h held := by
    obtain ⟨a, mid, early, late⟩ := of_bind h
    have still := (later a a (self _ _ _ early)).reads late
    obtain ⟨b, mid', early', related, sees⟩ :=
      first.carries sees early ⟨held.1, still.ahead ▸ held.2⟩
    obtain ⟨a', d', late', related, sees⟩ := (later a b related).carries sees late
    exact ⟨a', d', (bind_ok early').trans late', related, sees⟩

theorem followed {S : β → β → Prop} [Std.Refl S] {p q : Parser β} {f g : β → Parser α}
    (first : Closes fit S p q) (later : ∀ a b, S a b → Still R (f a) (g b)) :
    Closes fit R (p >>= f) (q >>= g) :=
  first.followed_of (fun _ a _ _ => Std.Refl.refl a) later

theorem ensures {told : α → Prop} {p q : Parser α} (h : Closes fit R p q)
    (here : Ensures p told) (there : Ensures q told) :
    Closes fit (fun a b => R a b ∧ told a ∧ told b) p q where
  reads := h.reads
  unbroken := h.unbroken
  carries sees read held := by
    obtain ⟨a', d', read', related, sees⟩ := h.carries sees read held
    exact ⟨a', d', read', ⟨related, here _ _ _ read, there _ _ _ read'⟩, sees⟩

/-- Of a cursor that is kept only the note counts. -/
theorem of_noted {f g : Cursor → Parser α}
    (later : ∀ displaced rest rest' last last',
      Closes fit R (f ⟨rest, displaced, last⟩) (g ⟨rest', displaced, last'⟩)) :
    Closes fit R (get >>= f) (get >>= g) where
  reads {c _ _} h := (later c.displaced c.rest c.rest c.last c.last).reads h
  unbroken {c} sound h := (later c.displaced c.rest c.rest c.last c.last).unbroken sound h
  carries {_ _ c c' _ _} sees h held := by
    obtain ⟨rest', displaced', last'⟩ := c'
    obtain rfl : displaced' = c.displaced := sees.displaced
    exact (later c.displaced c.rest rest' c.last last').carries sees h held

theorem placed {S : β → β → Prop} [Std.Refl S] {p q : Parser β} (h : Closes fit S p q) :
    Closes fit (OnFirst S) (placed p) (placed q) :=
  of_noted fun _ _ _ _ _ => h.followed fun _ _ related =>
    .of_noted fun _ _ _ _ _ => .pure_of related

variable [Hereditary fit]

/-- What is read in front of the end of an item. -/
theorem after {S : β → β → Prop} [Std.Refl S] {p q : Parser β} {f g : β → Parser α}
    (first : Tracks fit true S p q) (later : ∀ a b, S a b → Closes fit R (f a) (g b)) :
    Closes fit R (p >>= f) (q >>= g) where
  reads h := by
    obtain ⟨a, _, early, late⟩ := of_bind h
    obtain ⟨_, took⟩ := first.reads early
    obtain ⟨_, tookLater, closed⟩ := (later a a (Std.Refl.refl a)).reads late
    exact ⟨_, took.trans tookLater, closed.before _⟩
  unbroken sound h := by
    rcases of_bind_aborted h with early | ⟨a, d, early, late⟩
    · exact first.unbroken sound early
    · obtain ⟨taken, took⟩ := first.reads early
      rw [took.ahead] at sound
      exact (later a a (Std.Refl.refl a)).unbroken (Hereditary.suffix sound) late
  carries sees h held := by
    obtain ⟨a, mid, early, late⟩ := of_bind h
    obtain ⟨_, tookFirst⟩ := first.reads early
    obtain ⟨_, took, closed⟩ := (later a a (Std.Refl.refl a)).reads late
    obtain ⟨b, mid', early', related, sees⟩ :=
      first.carries sees early (held.clear tookFirst took closed.not_nil)
    obtain ⟨a', d', late', related, sees⟩ :=
      (later a b related).carries sees late (held.onward tookFirst took closed.not_nil)
    exact ⟨a', d', (bind_ok early').trans late', related, sees⟩

/-- A step to the same value, and then what follows from it. -/
theorem seq {p q : Parser β} {f g : β → Parser α} [first : Tracks fit true Eq p q]
    (later : ∀ a, Closes fit R (f a) (g a)) : Closes fit R (p >>= f) (q >>= g) :=
  after first fun a _ same => same ▸ later a

instance afterEq {p q : Parser β} {f g : β → Parser α} [first : Tracks fit true Eq p q]
    [later : ∀ a, Closes fit R (f a) (g a)] : Closes fit R (p >>= f) (q >>= g) :=
  seq later

instance (priority := low) afterAny {p q : Parser β} {f g : β → Parser α}
    [first : Tracks fit true Any p q] [later : ∀ a b, Closes fit R (f a) (g b)] :
    Closes fit R (p >>= f) (q >>= g) :=
  after first fun a b _ => later a b

/-- A step whose value is not used, and then what follows it. -/
instance afterUnused {p q : Parser β} {f g : Parser α} [first : Tracks fit true Any p q]
    [later : Closes fit R f g] : Closes fit R (p >>= fun _ => f) (q >>= fun _ => g) :=
  afterAny

instance followedEq {p q : Parser β} {f g : β → Parser α} [first : Closes fit Eq p q]
    [later : ∀ a, Still R (f a) (g a)] : Closes fit R (p >>= f) (q >>= g) :=
  followed first fun a _ same => same ▸ later a

omit [Hereditary fit] in
/-- Where nothing more may follow, it does not matter how it ends. -/
theorem tracks {p q : Parser α} (h : Closes fit R p q) : Tracks fit false R p q where
  reads read := by
    obtain ⟨taken, took, _⟩ := h.reads read
    exact ⟨taken, took⟩
  unbroken := h.unbroken
  carries {_ _ _ _ _ d} sees read clear := by
    obtain ⟨rfl, rfl⟩ := clear.closed
    exact h.carries sees read ⟨.nothing _ _, d.rest, (List.append_nil _).symm⟩

omit [Hereditary fit] in
instance refuse (q : Parser α) : Closes fit R refuse q where
  reads h := by cases h
  unbroken _ h := by cases h
  carries _ read _ := by cases read

instance refuse_bind (f : β → Parser α) (q : Parser α) : Closes fit R (Grammar.refuse >>= f) q where
  reads h := by
    obtain ⟨_, _, refused, _⟩ := of_bind h
    cases refused
  unbroken _ h := by cases h
  carries _ read _ := by
    obtain ⟨_, _, refused, _⟩ := of_bind read
    cases refused

instance ite {condition : Prop} [Decidable condition] {p q p' q' : Parser α}
    [yes : Closes fit R p q] [no : Closes fit R p' q'] :
    Closes fit R (if condition then p else p') (if condition then q else q') := by
  split
  · exact yes
  · exact no

/-- A question, and then what follows either answer. -/
instance askedEq {told : β → Prop} [DecidablePred told] {p q : Parser β} {f f' g g' : Parser α}
    [first : Tracks fit true Eq p q] [yes : Closes fit R f f'] [no : Closes fit R g g'] :
    Closes fit R (p >>= fun b => if told b then f else g)
      (q >>= fun b => if told b then f' else g') :=
  afterEq

/-- A step that may be left out, and then what follows it. -/
instance (priority := high) skip {condition : Prop} [Decidable condition] {p q : Parser β}
    {f g : Parser α} [first : Tracks fit true Any p q] [later : Closes fit R f g] :
    Closes fit R (if condition then p >>= fun _ => f else f)
      (if condition then q >>= fun _ => g else g) := by
  split
  · exact afterUnused
  · exact later

instance (priority := high) except {condition : Prop} [Decidable condition] {p q : Parser β}
    {f g : Parser α} [first : Tracks fit true Any p q] [later : Closes fit R f g] :
    Closes fit R (if condition then f else p >>= fun _ => f)
      (if condition then g else q >>= fun _ => g) := by
  split
  · exact later
  · exact afterUnused

/-! ## The last token -/

/-- Braces are read to their end. -/
instance braces {p q : Parser α} [inner : Tracks fit false R p q] :
    Closes fit R (delimited .brace p) (delimited .brace q) where
  reads h := by
    obtain ⟨content, extent, _, ahead, _, _, same⟩ := Tracks.of_delimited h
    exact ⟨[_], ⟨ahead, by rw [same]; rfl⟩, [], _, rfl, trivial⟩
  unbroken sound h := (Tracks.delimited : Tracks fit true R _ (delimited .brace q)).unbroken sound h
  carries sees h held := by
    obtain ⟨left, behind⟩ := held.2
    exact Tracks.carries_delimited inner sees h behind

/-- Where the answer is yes, the next token closes an item. -/
class Seals (look : Look) : Prop where
  closes : ∀ ts, look ts = true → ∃ t later, ts = t :: later ∧ ClosesItem t

instance : Seals (Look.symbol ";") where
  closes ts yes := by
    match ts with
    | [] | .ident _ _ :: _ | .literal _ _ :: _ | .group _ _ _ :: _ => cases yes
    | .punct c joint extent :: later =>
      obtain rfl : ';' = c := beq_iff_eq.mp yes
      exact ⟨_, later, rfl, trivial⟩

instance : Seals (Look.group .brace) where
  closes ts yes := by
    obtain ⟨content, extent, later, rfl⟩ := Tracks.group_ahead yes
    exact ⟨_, later, rfl, trivial⟩

omit [Hereditary fit] in
/-- The last token, where it stands ahead. -/
instance asked {look : Look} [Seals look] [Steady true look] {f g : Unit → Parser α}
    {p q : Parser α} [last : Still R (f ()) (g ())] [other : Closes fit R p q] :
    Closes fit R (Grammar.peek look >>= fun seen => if seen = true then trees 1 >>= f else p)
      (Grammar.peek look >>= fun seen => if seen = true then trees 1 >>= g else q) where
  reads {c a d} h := by
    change (if look c.rest = true then trees 1 >>= f else p) c = _ at h
    split at h
    next yes =>
      obtain ⟨_, _, early, late⟩ := of_bind h
      obtain ⟨t, _, read, given⟩ := of_bind early
      cases given
      obtain ⟨u, later, ahead, closes⟩ := Seals.closes _ yes
      have took := Tracks.took_tree read
      obtain rfl : u = t := (List.cons.inj (ahead.symm.trans took.ahead)).1
      have whole := took.trans (last.reads late)
      exact ⟨_, whole, [], u, rfl, closes⟩
    next => exact other.reads h
  unbroken {c} sound h := by
    change (if look c.rest = true then trees 1 >>= f else p) c = _ at h
    split at h
    next =>
      rcases of_bind_aborted h with early | ⟨_, _, _, late⟩
      · exact (Tracks.trees 1 : Tracks (fun _ => True) true Eq _ _).unbroken trivial early
      · exact last.unbroken late
    next => exact other.unbroken sound h
  carries {less more c c' a d} sees h held := by
    have same : look c'.rest = look c.rest := sees.steady held.1 look
    change (if look c.rest = true then trees 1 >>= f else p) c = _ at h
    change ∃ a' d', (if look c'.rest = true then trees 1 >>= g else q) c' = .ok (a', d') ∧ _
    rw [same]
    split at h
    next yes =>
      obtain ⟨_, mid, early, late⟩ := of_bind h
      obtain ⟨t, _, read, given⟩ := of_bind early
      cases given
      obtain ⟨left, behind⟩ := held.2
      have still : mid.rest = d.rest := (last.reads late).ahead
      obtain ⟨_, mid', read', _, sees⟩ := Tracks.carries_tree sees read (still.trans behind)
      obtain ⟨a', d', late', related, sees⟩ := last.carries sees late
      rw [if_pos yes]
      exact ⟨a', d', (bind_ok ((bind_ok read').trans rfl)).trans late', related, sees⟩
    next no =>
      rw [if_neg no]
      exact other.carries sees h held

instance semicolon : Closes fit Eq (symbol ";") (symbol ";") := by
  have whole : symbol ";" = (do
      unless ← Grammar.peek (.symbol ";") do Grammar.refuse
      trees 1 >>= fun _ => pure ()) := by
    rw [show (trees 1 >>= fun _ => pure ()) = trees 1 from bind_pure _]
    rfl
  rw [whole]
  infer_instance

/-- An item that a semicolon ends, if one stands ahead. -/
instance semicolon? {p q p' q' : Parser α} [last : Still R p q] [other : Closes fit R p' q'] :
    Closes fit R (symbol? ";" >>= fun seen => if seen = true then p else p')
      (symbol? ";" >>= fun seen => if seen = true then q else q') := by
  have whole (p p' : Parser α) : (symbol? ";" >>= fun seen => if seen = true then p else p') =
      Grammar.peek (.symbol ";") >>= fun seen =>
        if seen = true then trees 1 >>= fun _ => p else p' := by
    unfold Grammar.symbol?
    simp only [bind_assoc]
    congr 1
    funext seen
    cases seen
    · simp only [Bool.false_eq_true, ↓reduceIte, pure_bind]
    · simp only [↓reduceIte, bind_assoc, pure_bind]
      rfl
  rw [whole, whole]
  infer_instance

/-- A group that is the last token if it has braces. -/
theorem group {f g : Delimiter × List TokenTree × Extent → Parser α}
    (last : ∀ x y, Tracks.AlikeGroups x y → x.1 = .brace → Still R (f x) (g y))
    (inner : ∀ x y, Tracks.AlikeGroups x y → x.1 ≠ .brace → Closes fit R (f x) (g y)) :
    Closes fit R (anyGroup >>= f) (anyGroup >>= g) where
  reads h := by
    obtain ⟨x, _, early, late⟩ := of_bind h
    by_cases brace : x.1 = .brace
    · have whole := (took_anyGroup early).trans ((last x x (Std.Refl.refl x) brace).reads late)
      refine ⟨_, whole, [], _, rfl, ?_⟩
      rw [brace]
      trivial
    · obtain ⟨_, tookLater, closed⟩ := (inner x x (Std.Refl.refl x) brace).reads late
      exact ⟨_, (took_anyGroup early).trans tookLater, closed.before _⟩
  unbroken sound h := by
    rcases of_bind_aborted h with early | ⟨x, d, early, late⟩
    · exact (Tracks.anyGroup : Tracks (fun _ => True) true _ _ _).unbroken trivial early
    · by_cases brace : x.1 = .brace
      · exact (last x x (Std.Refl.refl x) brace).unbroken late
      · rw [(took_anyGroup early).ahead] at sound
        exact (inner x x (Std.Refl.refl x) brace).unbroken (Hereditary.tail _ _ sound) late
  carries {less _ _ _ _ d} sees h held := by
    obtain ⟨x, mid, early, late⟩ := of_bind h
    have took := took_anyGroup early
    obtain ⟨left, behind⟩ := held.2
    by_cases brace : x.1 = .brace
    · have still : mid.rest = d.rest := ((last x x (Std.Refl.refl x) brace).reads late).ahead
      obtain ⟨y, mid', early', alike, sees⟩ := carries_anyGroup sees early (still.trans behind)
      obtain ⟨a', d', late', related, sees⟩ := (last x y alike brace).carries sees late
      exact ⟨a', d', (bind_ok early').trans late', related, sees⟩
    · obtain ⟨later, tookLater, closed⟩ := (inner x x (Std.Refl.refl x) brace).reads late
      have between : mid.rest = (later ++ left) ++ less := by
        rw [tookLater.ahead, behind, List.append_assoc]
      obtain ⟨y, mid', early', alike, sees⟩ := carries_anyGroup sees early between
      obtain ⟨a', d', late', related, sees⟩ :=
        (inner x y alike brace).carries sees late (held.onward took tookLater closed.not_nil)
      exact ⟨a', d', (bind_ok early').trans late', related, sees⟩

end Closes

end MacroExpansion.Grammar
