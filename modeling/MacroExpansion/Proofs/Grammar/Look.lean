import MacroExpansion.Grammar.Item
import MacroExpansion.Proofs.Token.Forest

/-!
# What a question about the tokens ahead hangs on

No question asks for the place of a token, or for what forms an operator with a semicolon. Nor does
one ask for what follows the last token of an item, if it is asked within the item: braces or a
semicolon go on with nothing, and a question about a later token is asked only after a token that
cannot be the last.
-/
namespace MacroExpansion

namespace TokenTree

/-- Tokens that differ in their places only. -/
def Alike (t u : TokenTree) : Prop :=
  u.unplaced = t.unplaced

theorem unplacedAll_eq_nil {ts : List TokenTree} (h : unplacedAll ts = []) : ts = [] := by
  cases ts with
  | nil => rfl
  | cons t ts => cases h

/-- Where a token is the first, one that is alike is the first of the moved tokens. -/
theorem of_unplacedAll_cons {t : TokenTree} {ts moved : List TokenTree}
    (h : unplacedAll moved = unplacedAll (t :: ts)) :
    ∃ u later, moved = u :: later ∧ Alike t u ∧ unplacedAll later = unplacedAll ts := by
  cases moved with
  | nil => cases h
  | cons u later =>
    rw [unplacedAll, unplacedAll] at h
    obtain ⟨same, alike⟩ := List.cons.inj h
    exact ⟨u, later, rfl, same, alike⟩

theorem Alike.of_group {d : Delimiter} {content : List TokenTree} {extent : Extent} {u : TokenTree}
    (h : Alike (.group d content extent) u) :
    ∃ content' extent', u = .group d content' extent' ∧
      unplacedAll content' = unplacedAll content := by
  cases u with
  | group d' content' extent' =>
    obtain ⟨rfl, inside, _⟩ := TokenTree.group.inj h
    exact ⟨content', extent', rfl, inside⟩
  | _ => cases h

/-- What questions see of a token: not its place, and of a semicolon not what follows it. -/
def seen : TokenTree → TokenTree
  | .punct c joint _ => .punct c (joint && c != ';') ⟨.origin, .origin⟩
  | t => t.unplaced

/-- What questions see of some tokens. -/
def seenAll (ts : List TokenTree) : List TokenTree :=
  ts.map seen

mutual

theorem unplaced_unplaced (t : TokenTree) : t.unplaced.unplaced = t.unplaced := by
  match t with
  | .ident _ _ | .punct _ _ _ | .literal _ _ => rfl
  | .group _ content _ =>
    rw [unplaced, unplaced, unplacedAll_unplacedAll content]

theorem unplacedAll_unplacedAll (ts : List TokenTree) :
    unplacedAll (unplacedAll ts) = unplacedAll ts := by
  match ts with
  | [] => rfl
  | t :: ts =>
    rw [unplacedAll, unplacedAll, unplaced_unplaced t, unplacedAll_unplacedAll ts]

end

theorem seen_unplaced (t : TokenTree) : t.unplaced.seen = t.seen := by
  cases t with
  | group d content extent => exact unplaced_unplaced (.group d content extent)
  | _ => rfl

theorem seenAll_append (ts us : List TokenTree) :
    seenAll (ts ++ us) = seenAll ts ++ seenAll us :=
  List.map_append

theorem seenAll_tail (ts : List TokenTree) : seenAll ts.tail = (seenAll ts).tail :=
  List.map_tail

theorem seenAll_unplacedAll (ts : List TokenTree) : seenAll (unplacedAll ts) = seenAll ts := by
  rw [seenAll, unplacedAll_eq_map, List.map_map]
  exact List.map_congr_left fun t _ => seen_unplaced t

theorem seenAll_eq {ts us : List TokenTree} (alike : unplacedAll us = unplacedAll ts) :
    seenAll us = seenAll ts := by
  rw [← seenAll_unplacedAll us, alike, seenAll_unplacedAll]

theorem seenAll_eq_nil {ts : List TokenTree} (h : seenAll ts = []) : ts = [] :=
  List.map_eq_nil_iff.mp h

/-- Where a token is the first, one that looks alike is the first of the moved tokens. -/
theorem of_seenAll_cons {t : TokenTree} {ts moved : List TokenTree}
    (h : seenAll moved = seenAll (t :: ts)) :
    ∃ u later, moved = u :: later ∧ u.seen = t.seen ∧ seenAll later = seenAll ts := by
  obtain ⟨u, later, rfl, same, alike⟩ := List.map_eq_cons_iff.mp h
  exact ⟨u, later, rfl, same, alike⟩

/-- A group is seen with its content. -/
theorem of_seen_group {d : Delimiter} {content : List TokenTree} {extent : Extent} {u : TokenTree}
    (h : u.seen = seen (.group d content extent)) :
    ∃ content' extent', u = .group d content' extent' ∧
      unplacedAll content' = unplacedAll content := by
  cases u with
  | group d' content' extent' =>
    have alike : Alike (.group d content extent) (.group d' content' extent') := h
    exact alike.of_group
  | _ => cases h

end TokenTree

namespace Grammar

open TokenTree

/-- A token that an item is closed by. -/
def ClosesItem : TokenTree → Prop
  | .group .brace _ _ => True
  | .punct ';' _ _ => True
  | _ => False

/-- The last of some tokens closes an item. -/
def Closed (ts : List TokenTree) : Prop :=
  ∃ front t, ts = front ++ [t] ∧ ClosesItem t

/-- There may be more behind some tokens: there is nothing more, or an item may end there. -/
def Room (free : Bool) (more ts : List TokenTree) : Prop :=
  more = [] ∨ free = true ∧ Closed ts

theorem closesItem_seen {t : TokenTree} : ClosesItem t.seen ↔ ClosesItem t := by
  unfold ClosesItem
  cases t with
  | group d content extent => cases d <;> simp [seen, unplaced]
  | punct c joint extent =>
    by_cases semicolon : c = ';'
    · subst semicolon
      simp [seen]
    · simp [seen, semicolon]
  | _ => simp [seen, unplaced]

namespace Closed

variable {t u : TokenTree} {ts : List TokenTree}

theorem not_nil (h : Closed ts) : ts ≠ [] := by
  obtain ⟨front, t, rfl, _⟩ := h
  simp

theorem single : Closed [t] ↔ ClosesItem t := by
  constructor
  · rintro ⟨front, u, same, ends⟩
    obtain ⟨rfl, rfl⟩ : front = [] ∧ u = t := by
      simpa [List.singleton_eq_append_iff] using same
    exact ends
  · exact fun ends => ⟨[], t, rfl, ends⟩

theorem cons_cons : Closed (t :: u :: ts) ↔ Closed (u :: ts) := by
  constructor
  · rintro ⟨front, v, same, ends⟩
    cases front with
    | nil => cases same
    | cons w front => exact ⟨front, v, (List.cons.inj same).2, ends⟩
  · rintro ⟨front, v, same, ends⟩
    exact ⟨t :: front, v, by rw [same, List.cons_append], ends⟩

theorem before (h : Closed ts) (front : List TokenTree) : Closed (front ++ ts) := by
  obtain ⟨inner, t, rfl, ends⟩ := h
  exact ⟨front ++ inner, t, by simp, ends⟩

theorem of_append (front : List TokenTree) (h : Closed (front ++ ts)) (nonempty : ts ≠ []) :
    Closed ts := by
  induction front with
  | nil => exact h
  | cons t front ih =>
    obtain ⟨u, rest, behind⟩ := List.exists_cons_of_ne_nil
      (List.append_ne_nil_of_right_ne_nil front nonempty)
    rw [List.cons_append, behind, cons_cons, ← behind] at h
    exact ih h

theorem seenAll (h : Closed ts) : Closed (TokenTree.seenAll ts) := by
  obtain ⟨front, t, rfl, ends⟩ := h
  exact ⟨_, t.seen, List.map_append, closesItem_seen.mpr ends⟩

end Closed

theorem Room.before {free : Bool} {more ts : List TokenTree} (h : Room free more ts)
    (front : List TokenTree) : Room free more (front ++ ts) :=
  h.imp_right fun ⟨isFree, ended⟩ => ⟨isFree, ended.before front⟩

/-! ## How far a question looks

Tokens are counted as `Look.second` passes over them: a lifetime is one. -/

/-- There are at least so many tokens. -/
def Reaches : (n : Nat) → List TokenTree → Prop
  | 0, _ => True
  | n + 1, ts => ts ≠ [] ∧ Reaches n (Look.pastFirst ts)

/-- A question that no token's place counts for. -/
class Placeless {β : Type} (look : List TokenTree → β) : Prop where
  same : ∀ ts, look (seenAll ts) = look ts

/-- A question that is answered by the tokens of an item alone, if there are at least `n`. -/
class Decided {β : Type} (n : Nat) (look : List TokenTree → β) : Prop where
  same : ∀ ts more, Closed ts → Reaches n ts → look (ts ++ more) = look ts

/-- A question whose answer is yes only if there are at least `n` tokens of the item. -/
class Needs (look : Look) (n : outParam Nat) : Prop where
  nothing : look [] = false
  reaches : ∀ ts, Closed ts → look ts = true → Reaches n ts

/-- A question with the same answer if the tokens are moved and others follow them. -/
class Steady {β : Type} (free : Bool) (look : List TokenTree → β) : Prop where
  same : ∀ {ts moved more}, seenAll moved = seenAll ts → Room free more ts →
    look (moved ++ more) = look ts

theorem pastFirst_single (t : TokenTree) : Look.pastFirst [t] = [] := by
  simp [Look.pastFirst]

theorem pastFirst_seenAll (ts : List TokenTree) :
    Look.pastFirst (seenAll ts) = seenAll (Look.pastFirst ts) := by
  fun_cases Look.pastFirst ts with
  | case1 => rfl
  | case2 t rest other =>
    rw [seenAll, List.map_cons, Look.pastFirst]
    · rfl
    intro extent spelling extent' rest' first second
    cases t with
    | punct c joint place =>
      cases rest with
      | nil => cases second
      | cons u rest =>
        cases u with
        | ident word place' =>
          obtain ⟨rfl, joint, _⟩ := TokenTree.punct.inj first
          obtain ⟨rfl, _⟩ := Bool.and_eq_true_iff.mp joint
          exact other _ _ _ _ rfl rfl
        | _ => cases second
    | _ => cases first
  | case3 => rfl

/-- What follows the first token goes on with what follows all tokens. -/
theorem pastFirst_append {ts : List TokenTree} (nonempty : Look.pastFirst ts ≠ [])
    (more : List TokenTree) : Look.pastFirst (ts ++ more) = Look.pastFirst ts ++ more := by
  fun_cases Look.pastFirst ts with
  | case1 => rfl
  | case2 t rest other =>
    rw [List.cons_append, Look.pastFirst]
    intro extent spelling extent' rest' first second
    cases rest with
    | nil => exact nonempty (pastFirst_single t)
    | cons u rest =>
      rw [List.cons_append, List.cons.injEq] at second
      exact other _ _ _ _ first (by rw [second.1])
  | case3 => exact absurd rfl nonempty

theorem Closed.pastFirst {ts : List TokenTree} (h : Closed ts) (nonempty : Look.pastFirst ts ≠ []) :
    Closed (Look.pastFirst ts) := by
  have behind : ∃ front, ts = front ++ Look.pastFirst ts := by
    fun_cases Look.pastFirst ts with
    | case1 extent spelling extent' rest =>
      exact ⟨[.punct '\'' true extent, .ident spelling extent'], rfl⟩
    | case2 t rest => exact ⟨[t], rfl⟩
    | case3 => exact ⟨[], rfl⟩
  obtain ⟨front, same⟩ := behind
  rw [same] at h
  exact h.of_append _ nonempty

theorem Reaches.not_nil {n : Nat} {ts : List TokenTree} (h : Reaches (n + 1) ts) : ts ≠ [] :=
  h.1

theorem Closed.reaches {ts : List TokenTree} (h : Closed ts) : Reaches 1 ts :=
  ⟨h.not_nil, trivial⟩

/-- After a token that ends no item there is another. -/
theorem Closed.reaches_two {t : TokenTree} {ts : List TokenTree} (h : Closed (t :: ts))
    (inner : ¬ ClosesItem t) : Reaches 2 (t :: ts) := by
  refine ⟨List.cons_ne_nil _ _, ?_, trivial⟩
  cases ts with
  | nil => exact absurd (Closed.single.mp h) inner
  | cons u ts =>
    have later : Closed (u :: ts) := Closed.cons_cons.mp h
    unfold Look.pastFirst
    split
    next same =>
      cases same
      rintro rfl
      exact Closed.single.mp later
    next same =>
      cases same
      exact List.cons_ne_nil _ _
    next same => cases same

theorem placeless {β : Type} (look : List TokenTree → β) [Placeless look] (ts : List TokenTree) :
    look (seenAll ts) = look ts :=
  Placeless.same ts

theorem placeless_unplaced {β : Type} (look : List TokenTree → β) [Placeless look]
    (ts : List TokenTree) : look (unplacedAll ts) = look ts := by
  rw [← placeless look (unplacedAll ts), seenAll_unplacedAll, placeless look]

theorem decided {β : Type} {n : Nat} (look : List TokenTree → β) [Decided n look]
    {ts : List TokenTree} (ended : Closed ts) (reached : Reaches n ts) (more : List TokenTree) :
    look (ts ++ more) = look ts :=
  Decided.same ts more ended reached

instance steady_of_decided {β : Type} {free : Bool} {look : List TokenTree → β} [Placeless look]
    [Decided 1 look] : Steady free look where
  same := by
    intro ts moved more alike room
    rw [← placeless look (moved ++ more), seenAll_append, alike]
    rcases room with rfl | ⟨_, ended⟩
    · rw [show seenAll [] = [] from rfl, List.append_nil, placeless look]
    · have ended := ended.seenAll
      rw [decided look ended ended.reaches, placeless look]

instance steady_of_placeless {β : Type} {look : List TokenTree → β} [Placeless look] :
    Steady false look where
  same := by
    intro ts moved more alike room
    rcases room with rfl | ⟨isFree, _⟩
    · rw [List.append_nil, ← placeless look moved, alike, placeless look]
    · cases isFree

/-! ## Questions about the first token -/

/-- A question about the first token alone. -/
class AboutFirst (look : Look) : Prop where
  nothing : look [] = false
  first : ∀ t ts, look (t :: ts) = look [t]
  same : ∀ t, look [t.seen] = look [t]

theorem first_alone (look : Look) [AboutFirst look] (t : TokenTree) (ts : List TokenTree) :
    look (t :: ts) = look [t] :=
  AboutFirst.first t ts

section

variable {look : Look} {n : Nat}

instance placeless_of_aboutFirst [AboutFirst look] : Placeless look where
  same ts := by
    cases ts with
    | nil => rfl
    | cons t ts =>
      exact (first_alone look _ _).trans ((AboutFirst.same t).trans (first_alone look t ts).symm)

instance decided_of_aboutFirst [AboutFirst look] : Decided (n + 1) look where
  same ts more _ reached := by
    cases ts with
    | nil => exact absurd rfl reached.not_nil
    | cons t ts => exact (first_alone look t _).trans (first_alone look t ts).symm

/-- Of a token that ends an item the answer is no. -/
theorem needs_of_aboutFirst [AboutFirst look] (inner : ∀ t, look [t] = true → ¬ ClosesItem t) :
    Needs look 2 where
  nothing := AboutFirst.nothing
  reaches ts ended yes := by
    cases ts with
    | nil => exact absurd rfl ended.not_nil
    | cons t ts =>
      rw [first_alone look] at yes
      exact ended.reaches_two (inner t yes)

instance : AboutFirst Look.word where
  nothing := rfl
  first t ts := by cases t <;> rfl
  same t := by cases t <;> rfl

instance : AboutFirst Look.name where
  nothing := rfl
  first t ts := by cases t <;> rfl
  same t := by cases t <;> rfl

instance (spelling : String) : AboutFirst (Look.keyword spelling) where
  nothing := rfl
  first t ts := by cases t <;> rfl
  same t := by cases t <;> rfl

instance (spellings : List String) : AboutFirst (Look.anyKeyword spellings) where
  nothing := rfl
  first t ts := by cases t <;> rfl
  same t := by cases t <;> rfl

instance (delimiter : Delimiter) : AboutFirst (Look.group delimiter) where
  nothing := rfl
  first t ts := by cases t <;> rfl
  same t := by cases t <;> rfl

instance (delimiter : Delimiter) [Placeless look] : AboutFirst (Look.inside delimiter look) where
  nothing := rfl
  first t ts := by cases t <;> rfl
  same t := by
    cases t with
    | group d content extent =>
      simp [seen, unplaced, Look.inside, placeless_unplaced look]
    | _ => rfl

instance : Needs Look.name 2 :=
  needs_of_aboutFirst fun t yes ends => by cases t <;> first | cases yes | exact ends

instance (spelling : String) : Needs (Look.keyword spelling) 2 :=
  needs_of_aboutFirst fun t yes ends => by cases t <;> first | cases yes | exact ends

instance (spellings : List String) : Needs (Look.anyKeyword spellings) 2 :=
  needs_of_aboutFirst fun t yes ends => by cases t <;> first | cases yes | exact ends

end

/-! ## Questions about several tokens -/

instance : Placeless Look.nothing where
  same ts := by cases ts <;> rfl

instance {n : Nat} : Decided (n + 1) Look.nothing where
  same ts more _ reached := by
    cases ts with
    | nil => exact absurd rfl reached.not_nil
    | cons t ts => rfl

/-- Punctuation that may go on with more. -/
def Look.joint (c : Char) : Look
  | .punct d joint _ :: _ => c == d && joint
  | _ => false

/-- Punctuation that no item ends with. -/
class Inner (c : Char) : Prop where
  other : c ≠ ';'

instance : Inner '\'' := ⟨by decide⟩
instance : Inner ':' := ⟨by decide⟩

instance (c : Char) [inner : Inner c] : AboutFirst (Look.joint c) where
  nothing := rfl
  first t ts := by cases t <;> rfl
  same t := by
    cases t with
    | punct d joint extent =>
      by_cases same : c = d
      · subst same
        simp [seen, Look.joint, inner.other]
      · simp [seen, Look.joint, beq_eq_false_iff_ne.mpr same]
    | _ => rfl

instance (c : Char) [inner : Inner c] : Needs (Look.joint c) 2 :=
  needs_of_aboutFirst fun t yes ends => by
    cases t with
    | punct d joint extent =>
      obtain ⟨same, _⟩ := Bool.and_eq_true_iff.mp yes
      obtain rfl := beq_iff_eq.mp same
      unfold ClosesItem at ends
      split at ends
      next same => cases same
      next same => exact inner.other (TokenTree.punct.inj same).1
      next => exact ends
    | _ => cases yes

theorem joint_single {c : Char} [Inner c] {t : TokenTree} (ended : Closed [t]) :
    Look.joint c [t] = false := by
  cases joint : Look.joint c [t] with
  | false => rfl
  | true =>
    have two : Reaches 2 [t] := Needs.reaches [t] ended joint
    exact absurd (pastFirst_single t) two.2.not_nil

theorem lifetime_eq (ts : List TokenTree) :
    Look.lifetime ts = (Look.joint '\'' ts && Look.word ts.tail) := by
  match ts with
  | [] | .ident _ _ :: _ | .literal _ _ :: _ | .group _ _ _ :: _ => rfl
  | .punct c joint _ :: rest =>
    by_cases quote : c = '\'' ∧ joint = true
    · obtain ⟨rfl, rfl⟩ := quote
      cases rest with
      | nil => rfl
      | cons u rest => cases u <;> rfl
    · have other : ('\'' == c && joint) = false := by
        rw [Bool.and_eq_false_iff, beq_eq_false_iff_ne]
        by_cases same : c = '\''
        · exact .inr (Bool.eq_false_iff.mpr fun joint => quote ⟨same, joint⟩)
        · exact .inl (Ne.symm same)
      rw [Look.joint, other, Bool.false_and, Look.lifetime]
      intro _ _ _ _ same
      cases same
      exact quote ⟨rfl, rfl⟩

instance : Placeless Look.lifetime where
  same ts := by
    rw [lifetime_eq, lifetime_eq, placeless (Look.joint '\''), ← seenAll_tail,
      placeless Look.word]

instance {n : Nat} : Decided (n + 1) Look.lifetime where
  same ts more ended reached := by
    rw [lifetime_eq, lifetime_eq, decided (Look.joint '\'') ended reached]
    match ts with
    | [] => exact absurd rfl ended.not_nil
    | [t] => rw [joint_single ended, Bool.false_and, Bool.false_and]
    | t :: u :: ts =>
      rw [List.cons_append, List.tail_cons, List.tail_cons, List.cons_append,
        first_alone Look.word, first_alone Look.word u ts]

instance : Needs Look.lifetime 2 where
  nothing := rfl
  reaches ts ended yes := by
    rw [lifetime_eq, Bool.and_eq_true] at yes
    exact Needs.reaches ts ended yes.1

theorem punctuation_cons_cons (c d : Char) (cs : List Char) (ts : List TokenTree) :
    Look.punctuation (c :: d :: cs) ts =
      (Look.joint c ts && Look.punctuation (d :: cs) ts.tail) := by
  match ts with
  | [] | .ident _ _ :: _ | .literal _ _ :: _ | .group _ _ _ :: _ => rfl
  | .punct e false _ :: _ => simp [Look.punctuation, Look.joint]
  | .punct e true _ :: _ => simp [Look.punctuation, Look.joint]

instance (c : Char) : AboutFirst (Look.punctuation [c]) where
  nothing := rfl
  first t ts := by cases t <;> rfl
  same t := by cases t <;> rfl

/-- Punctuation that is asked for has no semicolon but at its end. -/
theorem inner_of_dropLast {c d : Char} {cs : List Char} (inner : ';' ∉ (c :: d :: cs).dropLast) :
    Inner c ∧ ';' ∉ (d :: cs).dropLast := by
  rw [List.dropLast_cons_cons, List.mem_cons, not_or] at inner
  exact ⟨⟨Ne.symm inner.1⟩, inner.2⟩

theorem placeless_punctuation {cs : List Char} (inner : ';' ∉ cs.dropLast) :
    Placeless (Look.punctuation cs) where
  same ts := by
    induction cs generalizing ts with
    | nil => rfl
    | cons c cs ih =>
      cases cs with
      | nil => exact placeless _ ts
      | cons d cs =>
        obtain ⟨first, inner⟩ := inner_of_dropLast inner
        rw [punctuation_cons_cons, punctuation_cons_cons, placeless (Look.joint c),
          ← seenAll_tail, ih inner]

theorem decided_punctuation {cs : List Char} (inner : ';' ∉ cs.dropLast) {n : Nat} :
    Decided (n + 1) (Look.punctuation cs) where
  same ts more ended reached := by
    induction cs generalizing ts n with
    | nil => rfl
    | cons c cs ih =>
      cases cs with
      | nil => exact decided (Look.punctuation [c]) ended reached more
      | cons d cs =>
        obtain ⟨first, inner⟩ := inner_of_dropLast inner
        rw [punctuation_cons_cons, punctuation_cons_cons, decided (Look.joint c) ended reached]
        match ts with
        | [] => exact absurd rfl ended.not_nil
        | [t] => rw [joint_single ended, Bool.false_and, Bool.false_and]
        | t :: u :: ts =>
          have later := Closed.cons_cons.mp ended
          rw [List.cons_append, List.tail_cons, List.tail_cons, ih inner _ later later.reaches]

/-- A symbol that is no empty text, and in which nothing follows a semicolon. -/
class Inked (text : String) : Prop where
  nonempty : 0 < text.length
  inner : ';' ∉ text.toList.dropLast

instance : Inked "!" := ⟨by decide, by decide⟩
instance : Inked "!=" := ⟨by decide, by decide⟩
instance : Inked "#" := ⟨by decide, by decide⟩
instance : Inked "&" := ⟨by decide, by decide⟩
instance : Inked "*" := ⟨by decide, by decide⟩
instance : Inked "+" := ⟨by decide, by decide⟩
instance : Inked "," := ⟨by decide, by decide⟩
instance : Inked "-" := ⟨by decide, by decide⟩
instance : Inked "->" := ⟨by decide, by decide⟩
instance : Inked "." := ⟨by decide, by decide⟩
instance : Inked ".." := ⟨by decide, by decide⟩
instance : Inked "..." := ⟨by decide, by decide⟩
instance : Inked "..=" := ⟨by decide, by decide⟩
instance : Inked ":" := ⟨by decide, by decide⟩
instance : Inked "::" := ⟨by decide, by decide⟩
instance : Inked ";" := ⟨by decide, by decide⟩
instance : Inked "<" := ⟨by decide, by decide⟩
instance : Inked "<=" := ⟨by decide, by decide⟩
instance : Inked "=" := ⟨by decide, by decide⟩
instance : Inked "==" := ⟨by decide, by decide⟩
instance : Inked "=>" := ⟨by decide, by decide⟩
instance : Inked ">" := ⟨by decide, by decide⟩
instance : Inked "?" := ⟨by decide, by decide⟩
instance : Inked "@" := ⟨by decide, by decide⟩
instance : Inked "|" := ⟨by decide, by decide⟩
instance : Inked "|=" := ⟨by decide, by decide⟩
instance : Inked "||" := ⟨by decide, by decide⟩
instance : Inked "~" := ⟨by decide, by decide⟩

instance (text : String) [inked : Inked text] : Placeless (Look.symbol text) :=
  placeless_punctuation inked.inner

instance (text : String) [inked : Inked text] {n : Nat} : Decided (n + 1) (Look.symbol text) :=
  decided_punctuation inked.inner

theorem needs_punctuation (c : Char) (cs : List Char) (inner : c ≠ ';') :
    Needs (Look.punctuation (c :: cs)) 2 := by
  cases cs with
  | nil =>
    refine needs_of_aboutFirst fun t yes ends => ?_
    unfold ClosesItem at ends
    split at ends
    · cases yes
    · exact inner (by simpa [Look.punctuation] using yes)
    · exact ends
  | cons d cs =>
    have first : Inner c := ⟨inner⟩
    refine ⟨rfl, fun ts ended yes => ?_⟩
    rw [punctuation_cons_cons, Bool.and_eq_true] at yes
    exact Needs.reaches ts ended yes.1

instance : Needs (Look.symbol "::") 3 where
  nothing := rfl
  reaches ts ended yes := by
    have single := needs_punctuation ':' [] (by decide)
    change Look.punctuation [':', ':'] ts = true at yes
    match ts with
    | [] => cases yes
    | [t] =>
      rw [punctuation_cons_cons, joint_single ended, Bool.false_and] at yes
      cases yes
    | t :: u :: ts =>
      rw [punctuation_cons_cons, Bool.and_eq_true] at yes
      have behind : Look.pastFirst (t :: u :: ts) = u :: ts := by
        unfold Look.pastFirst
        split
        next same =>
          -- a quote is no colon
          cases same
          cases yes.1
        next same => rw [(List.cons.inj same).2]
        next same => cases same
      refine ⟨List.cons_ne_nil _ _, ?_⟩
      rw [behind]
      exact Needs.reaches _ (Closed.cons_cons.mp ended) yes.2

instance : Needs (Look.symbol "~") 2 := needs_punctuation '~' [] (by decide)

instance : Needs (Look.symbol "?") 2 := needs_punctuation '?' [] (by decide)

instance : Needs (Look.symbol "!") 2 := needs_punctuation '!' [] (by decide)

instance : Needs (Look.symbol "<") 2 := needs_punctuation '<' [] (by decide)

instance : Needs (Look.symbol "#") 2 := needs_punctuation '#' [] (by decide)

/-! ## Combined questions -/

section

variable {a b : Look} {n k : Nat}

theorem not_ahead (a : Look) [Needs a n] : a [] = false :=
  Needs.nothing

instance [Placeless a] [Placeless b] : Placeless (Look.either a b) where
  same ts := by rw [Look.either, placeless a, placeless b, Look.either]

instance [Placeless a] [Placeless b] : Placeless (Look.both a b) where
  same ts := by rw [Look.both, placeless a, placeless b, Look.both]

instance [Placeless a] [Placeless b] : Placeless (Look.butNot a b) where
  same ts := by rw [Look.butNot, placeless a, placeless b, Look.butNot]

instance [Placeless a] : Placeless fun ts => !a ts where
  same ts := by rw [placeless a]

instance : Placeless (Look.anyOf []) where
  same _ := rfl

instance {looks : List Look} [Placeless a] [Placeless (Look.anyOf looks)] :
    Placeless (Look.anyOf (a :: looks)) where
  same ts := by
    have later := placeless (Look.anyOf looks) ts
    unfold Look.anyOf at later ⊢
    rw [List.any_cons, later, placeless a, List.any_cons]

instance [Placeless a] : Placeless (Look.second a) where
  same ts := by
    rw [Look.second, pastFirst_seenAll, placeless a, Look.second, seenAll, List.isEmpty_map]

instance [Placeless a] : Placeless (Look.third a) :=
  inferInstanceAs (Placeless (Look.second (Look.second a)))

instance [Decided n a] [Decided n b] : Decided n (Look.either a b) where
  same ts more ended reached := by
    rw [Look.either, decided a ended reached, decided b ended reached, Look.either]

instance [Decided n a] [Decided n b] : Decided n (Look.both a b) where
  same ts more ended reached := by
    rw [Look.both, decided a ended reached, decided b ended reached, Look.both]

instance [Decided n a] [Decided n b] : Decided n (Look.butNot a b) where
  same ts more ended reached := by
    rw [Look.butNot, decided a ended reached, decided b ended reached, Look.butNot]

/-- The second question is asked only if the first says that there are enough tokens. -/
instance [Decided n a] [Needs a k] [Decided k b] : Decided n (Look.both a b) where
  same ts more ended reached := by
    rw [Look.both, Look.both, decided a ended reached]
    cases yes : a ts with
    | false => rfl
    | true => rw [decided b ended (Needs.reaches ts ended yes)]

instance [Decided n a] [Needs a k] [Decided k b] : Decided n (Look.butNot a b) where
  same ts more ended reached := by
    rw [Look.butNot, Look.butNot, decided a ended reached]
    cases yes : a ts with
    | false => rfl
    | true => rw [decided b ended (Needs.reaches ts ended yes)]

instance [Decided n a] : Decided n fun ts => !a ts where
  same ts more ended reached := by rw [decided a ended reached]

instance : Decided n (Look.anyOf []) where
  same _ _ _ _ := rfl

instance {looks : List Look} [Decided n a] [Decided n (Look.anyOf looks)] :
    Decided n (Look.anyOf (a :: looks)) where
  same ts more ended reached := by
    have later := decided (Look.anyOf looks) ended reached more
    unfold Look.anyOf at later ⊢
    rw [List.any_cons, later, decided a ended reached, List.any_cons]

instance [Decided (n + 1) a] : Decided (n + 2) (Look.second a) where
  same ts more ended reached := by
    have later : Look.pastFirst ts ≠ [] := reached.2.not_nil
    have filled : ts.isEmpty = false ∧ (ts ++ more).isEmpty = false := by
      simp [reached.not_nil]
    rw [Look.second, Look.second, pastFirst_append later,
      decided a (ended.pastFirst later) reached.2,
      filled.1, filled.2]

instance [Decided (n + 1) a] : Decided (n + 3) (Look.third a) :=
  inferInstanceAs (Decided (n + 3) (Look.second (Look.second a)))

instance [Needs a n] [Needs b n] : Needs (Look.either a b) n where
  nothing := by rw [Look.either, not_ahead a, not_ahead b, Bool.or_false]
  reaches ts ended yes := by
    rcases Bool.or_eq_true_iff.mp yes with yes | yes
    · exact Needs.reaches ts ended yes
    · exact Needs.reaches ts ended yes

instance [Needs a n] : Needs (Look.both a b) n where
  nothing := by rw [Look.both, not_ahead a, Bool.false_and]
  reaches ts ended yes := Needs.reaches ts ended (Bool.and_eq_true_iff.mp yes).1

instance [Needs a n] : Needs (Look.butNot a b) n where
  nothing := by rw [Look.butNot, not_ahead a, Bool.false_and]
  reaches ts ended yes := Needs.reaches ts ended (Bool.and_eq_true_iff.mp yes).1

instance [Needs a n] : Needs (Look.second a) (n + 1) where
  nothing := rfl
  reaches ts ended yes := by
    obtain ⟨filled, yes⟩ := Bool.and_eq_true_iff.mp yes
    have later : Look.pastFirst ts ≠ [] := fun empty => by
      rw [empty, not_ahead a] at yes
      cases yes
    exact ⟨by simpa using filled, Needs.reaches _ (ended.pastFirst later) yes⟩

end

end Grammar

end MacroExpansion
