import MacroExpansion.Proofs.Grammar.Opening

/-!
# How far the head of a call looks

Where a call starts and what it is called shows in the tokens up to its group, whatever follows
them. Main statement: a call that stands somewhere stands as well wherever its tokens stand.
-/
namespace MacroExpansion.Grammar

open TokenTree

variable {α β : Type} {less more : List TokenTree} {c d : Cursor} {n k : Nat}

/-- The same tokens stand ahead, in other places, and behind them more of each text. -/
def Meets (less more : List TokenTree) (c d : Cursor) : Prop :=
  ∃ own moved, c.rest = own ++ less ∧ d.rest = moved ++ more ∧ unplacedAll moved = unplacedAll own

/-- At least `k` tokens are read. -/
def Consumes (k : Nat) (p : Parser α) : Prop :=
  ∀ c a d, p c = .ok (a, d) → d.rest.length + k ≤ c.rest.length

/-- What is read shows in the tokens that are read and the next `n`, and nothing is noted. -/
def Local (n : Nat) (p : Parser α) : Prop :=
  ∀ less more c d a e, Meets less more c d → p d = .ok (a, e) → more.length + n ≤ e.rest.length →
    e.displaced = d.displaced ∧ ∃ c', p c = .ok (a, c') ∧ Meets less more c' e

/-- If a token is left in front of what follows, both texts have it. -/
theorem Meets.cons {t : TokenTree} {rest : List TokenTree} (meets : Meets less more c d)
    (ahead : d.rest = t :: rest) (left : more.length ≤ rest.length) :
    ∃ u later, c.rest = u :: later ∧ Alike t u ∧
      ∀ displaced last displaced' last', Meets less more ⟨later, displaced, last⟩
        ⟨rest, displaced', last'⟩ := by
  obtain ⟨own, moved, here, there, same⟩ := meets
  rw [ahead] at there
  cases moved with
  | nil =>
    have long := congrArg List.length there
    simp only [List.nil_append, List.length_cons] at long
    omega
  | cons v moved =>
    obtain ⟨rfl, rfl⟩ := List.cons.inj there
    obtain ⟨u, later, rfl, alike, same⟩ := of_unplacedAll_cons same.symm
    exact ⟨u, later ++ less, here, alike, fun _ _ _ _ => ⟨later, moved, rfl, rfl, same.symm⟩⟩

namespace Consumes

theorem of_advances {p : Parser α} (h : Advances p) : Consumes 0 p :=
  fun _ _ _ read => (h _ _ _ read).length_le

theorem refuse : Consumes k (refuse : Parser α) :=
  fun _ _ _ read => by cases read

theorem tree : Consumes 1 tree :=
  fun _ _ _ read => by rw [of_tree read, List.length_cons]

theorem bind {m : Nat} {p : Parser β} {f : β → Parser α} (first : Consumes k p)
    (later : ∀ b, Consumes m (f b)) : Consumes (k + m) (p >>= f) :=
  fun _ _ _ read => by
    obtain ⟨b, _, early, late⟩ := of_bind read
    have here := first _ _ _ early
    have there := later b _ _ _ late
    omega

theorem trees (k : Nat) : Consumes k (trees k) := by
  induction k with
  | zero => exact .of_advances (.trees 0)
  | succ k ih =>
    have whole : Consumes (1 + k) (Grammar.trees (k + 1)) := tree.bind fun _ => ih
    rwa [Nat.add_comm] at whole

theorem guarded {look : Look} {p : Parser α} (h : Consumes k p) :
    Consumes k (do
      unless ← peek look do Grammar.refuse
      p) :=
  fun _ _ _ read => h _ _ _ (of_unless read).2

theorem word : Consumes 1 word :=
  fun _ _ _ read => by
    obtain ⟨extent, ahead⟩ := of_word read
    rw [ahead, List.length_cons]

theorem symbol (text : String) : Consumes text.length (symbol text) :=
  .guarded (.trees _)

end Consumes

namespace Local

theorem pure (a : α) : Local n (pure a) :=
  fun _ _ _ _ _ _ meets read _ => by
    cases read
    exact ⟨rfl, _, rfl, meets⟩

theorem refuse : Local n (refuse : Parser α) :=
  fun _ _ _ _ _ _ _ read _ => by cases read

theorem bind {p : Parser β} {f : β → Parser α} (first : Local (n + k) p)
    (later : ∀ b, Local n (f b)) (consumes : ∀ b, Consumes k (f b)) : Local n (p >>= f) :=
  fun _ _ _ _ _ _ meets read left => by
    obtain ⟨b, _, early, late⟩ := of_bind read
    have between := consumes b _ _ _ late
    obtain ⟨kept, _, early', meets⟩ := first _ _ _ _ _ _ meets early (by omega)
    obtain ⟨kept', c', late', meets⟩ := later b _ _ _ _ _ _ meets late left
    exact ⟨kept'.trans kept, c', (bind_ok early').trans late', meets⟩

theorem peek {look : Look} [Placeless look]
    (near : ∀ ts more, n ≤ ts.length → look (ts ++ more) = look ts) : Local n (peek look) :=
  fun less more c d _ _ meets read left => by
    obtain ⟨rfl, rfl⟩ := of_peek read
    refine ⟨rfl, c, ?_, meets⟩
    obtain ⟨own, moved, here, there, same⟩ := meets
    have long := length_of_seenAll (seenAll_eq same)
    rw [there, List.length_append] at left
    rw [Grammar.peek, here, there, near _ _ (by omega), near _ _ (by omega),
      ← placeless_unplaced look moved,
      same, placeless_unplaced look own]

theorem tree_bind {f : TokenTree → Parser α} (later : ∀ t, Local n (f t))
    (consumes : ∀ t, Consumes 0 (f t)) (same : ∀ t u, Alike t u → f t = f u) :
    Local n (tree >>= f) :=
  fun _ _ c _ _ _ meets read left => by
    obtain ⟨t, mid, early, late⟩ := of_bind read
    have between := consumes t _ _ _ late
    obtain ⟨u, rest, ahead, alike, meets⟩ := meets.cons (of_tree early) (by omega)
    have early' : tree c = .ok (u, ⟨rest, c.displaced, some u.extent⟩) := by
      rw [tree, ahead]
    obtain ⟨kept, c', late', meets⟩ := later t _ _ _ _ _ _ (meets _ _ _ _) late left
    exact ⟨kept.trans (displaced_of_tree early), c',
      (bind_ok early').trans (same t u alike ▸ late'), meets⟩

theorem ite {condition : Prop} [Decidable condition] {p q : Parser α} (yes : Local n p)
    (no : Local n q) : Local n (if condition then p else q) := by
  split
  · exact yes
  · exact no

/-- What has to stand ahead does so in the tokens that are read. -/
theorem guarded {look : Look} [Placeless look] {p : Parser α} (h : Local n p)
    (consumes : Consumes k p)
    (near : ∀ ts more, n + k ≤ ts.length → look (ts ++ more) = look ts) :
    Local n (do
      unless ← Grammar.peek look do Grammar.refuse
      p) := by
  refine .bind (.peek near) (fun seen => ?_) fun seen => ?_
  · split
    · exact h
    · exact fun _ _ _ _ _ _ _ read _ => by
        obtain ⟨_, _, refused, _⟩ := of_bind read
        cases refused
  · split
    · exact consumes
    · exact fun _ _ _ read => by
        obtain ⟨_, _, refused, _⟩ := of_bind read
        cases refused

theorem word : Local n word := by
  refine tree_bind (fun t => ?_) (fun t => ?_) fun t u alike => ?_
  · split
    · exact pure _
    · exact refuse
  · split
    · exact .of_advances (.pure _)
    · exact .refuse
  · cases t <;> cases u <;> first | cases alike; rfl | rfl | cases alike

theorem trees (k : Nat) : Local n (trees k) := by
  induction k with
  | zero => exact pure ()
  | succ k ih =>
    exact tree_bind (fun _ => ih) (fun _ => .of_advances (.trees k)) fun _ _ _ => rfl

/-! ## Symbols and names -/

theorem punctuation_near {cs : List Char} {ts : List TokenTree} (enough : cs.length ≤ ts.length)
    (more : List TokenTree) : Look.punctuation cs (ts ++ more) = Look.punctuation cs ts := by
  induction cs generalizing ts with
  | nil => rfl
  | cons e cs ih =>
    cases ts with
    | nil => cases enough
    | cons t ts =>
      have short : cs.length ≤ ts.length := Nat.le_of_succ_le_succ enough
      cases cs with
      | nil => cases t <;> rfl
      | cons f cs =>
        have first : Look.joint e (t :: (ts ++ more)) = Look.joint e (t :: ts) := by
          cases t <;> rfl
        rw [List.cons_append, punctuation_cons_cons, punctuation_cons_cons, first, List.tail_cons,
          List.tail_cons, ih short]

theorem symbol (text : String) [Inked text] : Local n (symbol text) :=
  .guarded (.trees _) (.trees _) fun _ more enough =>
    punctuation_near (by rw [String.length_toList]; omega) more

theorem symbol? (text : String) [Inked text] : Local text.length (symbol? text) := by
  refine .bind (.peek fun _ more enough => punctuation_near ?_ more) (fun seen => ?_) fun seen =>
    .of_advances ?_
  · rw [String.length_toList]
    omega
  · refine .ite (.bind (.trees _) (fun _ => .pure _) fun _ => .of_advances (.pure _)) (.pure _)
  · split
    · exact (Advances.trees _).bind fun _ => .pure _
    · exact .pure _

/-- A question about the first token is answered by it. -/
theorem near_of_aboutFirst {look : Look} [AboutFirst look] {ts : List TokenTree}
    (positive : 1 ≤ ts.length) (more : List TokenTree) : look (ts ++ more) = look ts := by
  cases ts with
  | nil => cases positive
  | cons t ts => exact (first_alone look t _).trans (first_alone look t ts).symm

theorem name : Local n name :=
  .guarded .word .word fun _ more enough => near_of_aboutFirst (by omega) more

/-! ## Groups and repetition -/

theorem delimited {d : Delimiter} {p : Parser α} [inner : Tracks (fun _ => False) false Eq p p] :
    Local n (delimited d p) :=
  fun _ _ c _ _ _ meets read left => by
    obtain ⟨content, extent, last, ahead, read, empty, same⟩ := Tracks.of_delimited read
    obtain ⟨u, rest, ahead', alike, meets⟩ := meets.cons ahead (by omega)
    obtain ⟨content', extent', rfl, inside⟩ := alike.of_group
    obtain ⟨_, ⟨rest', displaced', last'⟩, read', rfl, sees⟩ :=
      inner.carries (.of_moved (seenAll_eq inside) false none none) read (.nothing _ _)
    obtain rfl : rest' = [] := sees.empty empty
    refine ⟨by rw [same], ⟨rest, c.displaced, some extent'⟩, ?_, same ▸ meets _ _ _ _⟩
    rw [Tracks.delimited_group d p ahead', read']
    rfl

/-- A loop is as local as its rounds, if each but the last reads a token. -/
theorem rounds {round : β → Parser (β × Bool)} (step : ∀ b, Local n (round b))
    (advances : ∀ b, Advances (round b))
    (goes : ∀ b c b' d, round b c = .ok ((b', true), d) → d.rest.length < c.rest.length) (b : β) :
    Local n (rounds round b) := by
  have advancesAll (k : Nat) (b : β) : Advances (roundsWithin round k b) := by
    induction k generalizing b with
    | zero => exact .refuse
    | succ k ih =>
      refine (advances b).bind fun (b', again) => ?_
      cases again with
      | true => exact ih b'
      | false => exact .pure b'
  have within (k : Nat) : ∀ (m : Nat) (b : β) (less more : List TokenTree) (c d : Cursor) (a : β)
      (e : Cursor), Meets less more c d → d.rest.length < m + more.length →
      roundsWithin round k b d = .ok (a, e) → more.length + n ≤ e.rest.length →
      e.displaced = d.displaced ∧
        ∃ c', roundsWithin round m b c = .ok (a, c') ∧ Meets less more c' e := by
    induction k with
    | zero => exact fun _ _ _ _ _ _ _ _ _ _ read _ => by cases read
    | succ k ih =>
      intro m b less more c d a e meets enough read left
      have fewer := (advancesAll _ _ _ _ _ read).length_le
      obtain ⟨m, rfl⟩ : ∃ l, m = l + 1 := ⟨m - 1, by omega⟩
      obtain ⟨⟨b', again⟩, mid, one, later⟩ := of_bind read
      cases again with
      | true =>
        have between := (advancesAll _ _ _ _ _ later).length_le
        have gone := goes _ _ _ _ one
        obtain ⟨kept, mid', one', meets⟩ := step b _ _ _ _ _ _ meets one (by omega)
        obtain ⟨kept', c', later', meets⟩ := ih m b' _ _ _ _ _ _ meets (by omega) later left
        exact ⟨kept'.trans kept, c', (bind_ok one').trans later', meets⟩
      | false =>
        cases later
        obtain ⟨kept, mid', one', meets⟩ := step b _ _ _ _ _ _ meets one left
        exact ⟨kept, mid', bind_ok one', meets⟩
  intro less more c d a e meets read left
  have enough : d.rest.length < c.rest.length + 1 + more.length := by
    obtain ⟨own, moved, here, there, same⟩ := meets
    have long := length_of_seenAll (seenAll_eq same)
    rw [here, there, List.length_append, List.length_append]
    omega
  exact within _ _ b _ _ _ _ _ _ meets enough read left

theorem untilStop {stop : Look} [Placeless stop] {p : Parser β} (h : Local n p)
    (near : ∀ ts more, n ≤ ts.length → stop (ts ++ more) = stop ts) (advances : Advances p)
    (consumes : Consumes 1 p) : Local n (untilStop stop p) := by
  refine .bind (k := 0) (.rounds (fun read => ?_) (fun read => ?_) (fun read c next d one => ?_) [])
    (fun _ => .pure _) fun _ => .of_advances (.pure _)
  · refine .bind (k := 0) (.peek near) (fun _ => .ite (.pure _) ?_) fun _ => .of_advances ?_
    · exact .bind (k := 0) h (fun _ => .pure _) fun _ => .of_advances (.pure _)
    · split
      · exact .pure _
      · exact advances.bind fun _ => .pure _
  · refine (Advances.peek stop).bind fun seen => ?_
    split
    · exact .pure _
    · exact advances.bind fun _ => .pure _
  · obtain ⟨seen, _, looked, later⟩ := of_bind one
    obtain ⟨rfl, rfl⟩ := of_peek looked
    split at later
    · cases later
    · obtain ⟨_, _, early, given⟩ := of_bind later
      cases given
      exact consumes _ _ _ early

/-! ## Attributes and paths -/

theorem outerAttributes : Local 1 outerAttributes := by
  have advances : Advances attributeBrackets :=
    (Advances.delimited _ _).bind fun _ => .pure _
  have brackets : Local 1 attributeBrackets :=
    .bind (k := 0) .delimited (fun _ => .pure _) fun _ => .of_advances (.pure _)
  refine .untilStop ?_ (fun ts more enough => ?_) ?_ ?_
  · exact .bind (k := 0) (.symbol "#") (fun _ => brackets) fun _ => .of_advances advances
  · rw [show Look.symbol "#" (ts ++ more) = Look.symbol "#" ts from
      punctuation_near (show "#".toList.length ≤ ts.length from enough) more]
  · exact (Advances.symbol "#").bind fun _ => advances
  · exact (Consumes.symbol "#").bind (m := 0) fun _ => .of_advances advances

instance : AboutFirst plainSegment where
  nothing := rfl
  first t ts := by cases t <;> rfl
  same t := by cases t <;> rfl

theorem plainPath : Local 2 plainPath := by
  have segment (read : List String) : Advances (do
      let read := (← Grammar.word) :: read
      return (read, ← Grammar.symbol? "::") : Parser (List String × Bool)) :=
    Advances.word.bind fun _ => (Advances.symbol? "::").bind fun _ => .pure _
  have segments : Local 2 plainPath.separatedSegments := by
    refine .bind (k := 0) (.rounds (fun read => ?_) (fun read => .guarded (segment read))
      (fun read c next d one => ?_) []) (fun _ => .pure _) fun _ => .of_advances (.pure _)
    · refine .guarded (k := 0) ?_ (.of_advances (segment read)) fun ts more enough =>
        near_of_aboutFirst (by omega) more
      refine .bind (k := 0) .word (fun _ => ?_) fun _ => .of_advances ?_
      · exact .bind (k := 0) (.symbol? "::") (fun _ => .pure _) fun _ => .of_advances (.pure _)
      · exact (Advances.symbol? "::").bind fun _ => .pure _
    · obtain ⟨_, one⟩ := of_unless one
      have taken : Consumes 1 (do
          let read := (← Grammar.word) :: read
          return (read, ← Grammar.symbol? "::") : Parser (List String × Bool)) :=
        Consumes.word.bind (m := 0) fun _ => .of_advances
          ((Advances.symbol? "::").bind fun _ => .pure _)
      exact taken _ _ _ one
  refine .bind (k := 0) (.symbol? "::") (fun _ => ?_) fun _ => .of_advances ?_
  · exact .bind (k := 0) segments (fun _ => .pure _) fun _ => .of_advances (.pure _)
  · have advances : Advances Grammar.plainPath.separatedSegments :=
      (Advances.rounds (fun read => .guarded (segment read)) []).bind fun _ => .pure _
    exact advances.bind fun _ => .pure _

theorem name? : Local 1 name? := by
  refine .bind (k := 0) (.peek fun _ more positive => near_of_aboutFirst positive more)
    (fun _ => .ite ?_ (.pure none)) fun seen => .of_advances ?_
  · rw [← bind_pure_comp]
    exact .bind (k := 0) .name (fun _ => .pure _) fun _ => .of_advances (.pure _)
  · split
    · exact Advances.some_name
    · exact .pure none

/-- The head of a call shows in its tokens and the group. -/
theorem callHead : Local 1 callHead := by
  refine .bind (k := 1) .plainPath (fun path => ?_) fun path => ?_
  · refine .bind (k := 0) (.symbol "!") (fun _ => ?_) fun _ => .of_advances ?_
    · exact .bind (k := 0) .name? (fun _ => .pure _) fun _ => .of_advances (.pure _)
    · exact Advances.name?.bind fun _ => .pure _
  · exact (Consumes.symbol "!").bind (m := 0) fun _ => .of_advances
      (Advances.name?.bind fun _ => .pure _)

end Local

/-! ## Calls -/

/-- The same call, but for the places of its tokens. -/
structure SameCall (x y : NamedCall) : Prop where
  alike : Tracks.AlikeNamed x y
  body : unplacedAll y.call.body = unplacedAll x.call.body

/-- The token in front of what follows is the last one. -/
theorem Meets.last {t : TokenTree} (meets : Meets less more c d) (ahead : d.rest = t :: more) :
    ∃ u, c.rest = u :: less ∧ Alike t u := by
  obtain ⟨u, later, here, alike, behind⟩ := meets.cons ahead (Nat.le_refl _)
  obtain ⟨own, moved, here', there, same⟩ := behind false none false none
  obtain rfl : moved = [] := by simpa using there.symm
  obtain rfl := unplacedAll_eq_nil same.symm
  exact ⟨u, by rw [here, ← List.nil_append less, ← here'], alike⟩

/-- Attributes and a call note nothing. -/
theorem displaced_of_call {attributes : List String} {named : NamedCall} {mid : Cursor}
    (early : outerAttributes c = .ok (attributes, mid)) (call : namedCall mid = .ok (named, d)) :
    d.displaced = c.displaced := by
  obtain ⟨inner, head, grouped, kept⟩ := of_namedCall call
  have self (c : Cursor) : Meets [] [] c c :=
    ⟨c.rest, c.rest, (List.append_nil _).symm, (List.append_nil _).symm, rfl⟩
  have positive : ([] : List TokenTree).length + 1 ≤ inner.rest.length := by
    rw [grouped, List.length_cons, List.length_nil]
    omega
  have fewer := (Advances.callHead _ _ _ head).length_le
  have keptHead := (Local.callHead _ _ _ _ _ _ (self mid) head positive).1
  have keptFirst := (Local.outerAttributes _ _ _ _ _ _ (self c) early (positive.trans fewer)).1
  exact kept.trans (keptHead.trans keptFirst)

/-- A call that stands somewhere, whatever follows, stands wherever its tokens stand. -/
theorem Called.moved {attributes : List String} {named : NamedCall} {ending rest : List TokenTree}
    (called : Called d attributes named ending rest) (meets : Meets less (ending ++ rest) c d) :
    ∃ mid past named', outerAttributes c = .ok (attributes, mid) ∧
      namedCall mid = .ok (named', past) ∧ past.rest = less ∧ SameCall named named' := by
  obtain ⟨mid, past, early, call, left⟩ := called.read
  obtain ⟨inner, head, grouped, -⟩ := of_namedCall call
  rw [left] at grouped
  have room : (ending ++ rest).length + 1 ≤ inner.rest.length := by rw [grouped, List.length_cons]
  have fewer := (Advances.callHead _ _ _ head).length_le
  obtain ⟨-, mid', early', meets⟩ := Local.outerAttributes _ _ _ _ _ _ meets early (by omega)
  obtain ⟨-, inner', head', meets⟩ := Local.callHead _ _ _ _ _ _ meets head room
  obtain ⟨u, ahead, alike⟩ := meets.last grouped
  obtain ⟨body', extent', rfl, inside⟩ := alike.of_group
  obtain ⟨start, again⟩ := namedCall_of_head head' ahead
  exact ⟨mid', _, _, early', again, rfl, ⟨rfl, rfl, rfl⟩, inside⟩

/-! ## Items that are calls -/

/-- A rule set or an invocation, which only a call gives. -/
def MadeByCall : Item → Prop
  | .ruleSet _ _ | .invocation _ _ => True
  | _ => False

/-- A call ends as it has to in place of an item: with a semicolon unless it has braces. -/
def Terminated (named : NamedCall) (ending : List TokenTree) : Prop :=
  ending = [] ↔ named.call.delimiter = .brace

theorem of_callItem {named : NamedCall} (read : callItem c = .ok (named, d)) :
    ∃ past ending, namedCall c = .ok (named, past) ∧ past.rest = ending ++ d.rest ∧
      Semicolon ending ∧ Terminated named ending ∧ d.displaced = past.displaced := by
  obtain ⟨called, past, call, later⟩ := of_bind read
  by_cases brace : called.call.delimiter = .brace
  · simp only [MacroCall.needsSemicolon, brace, bne_self_eq_false] at later
    cases later
    exact ⟨_, [], call, rfl, .inl rfl, by simp [Terminated, brace], rfl⟩
  · have needs : called.call.needsSemicolon = true := by
      simpa [MacroCall.needsSemicolon] using brace
    simp only [needs, ↓reduceIte] at later
    obtain ⟨_, _, ended, given⟩ := of_bind later
    cases given
    obtain ⟨⟨joint, extent, ahead⟩, kept⟩ := of_mark rfl ended
    exact ⟨past, _, call, ahead, .inr ⟨joint, extent, rfl⟩, by simp [Terminated, brace], kept⟩

/-- Only a call gives what is made by one. -/
theorem of_itemBody_call {r : Rules} {body : ItemBody} {head : ItemHead}
    (read : itemBody r c = .ok (body, d)) (made : MadeByCall (body.build head)) :
    ∃ named, callItem c = .ok (named, d) ∧
      body = ⟨[], fun head => itemOfCall head named.call named.name⟩ := by
  obtain ⟨form, mid, looked, later⟩ := of_bind read
  have stays : mid = c := by
    unfold itemForm ahead at looked
    split at looked <;> cases looked
    rfl
  subst stays
  cases form with
  | call =>
    obtain ⟨named, _, called, given⟩ := of_bind later
    cases given
    exact ⟨named, called, rfl⟩
  | _ =>
    refine absurd made ((?_ : Ensures _ fun body : ItemBody => ∀ head,
      ¬ MadeByCall (body.build head)) _ _ _ later head)
    -- every way through another form ends in an item that is made by no call
    simp only [functionItem, externCrateItem, foreignBlockItem, useItem, staticItem, constItem,
      moduleItem, unsafeItem, typeAliasItem, dataItem, traitItem, implementationItem, rulesItem]
    repeat' first
      | with_reducible refine Ensures.bind fun _ => ?_
      | with_reducible exact Ensures.refuse
      | split
      | exact Ensures.pure fun _ made => made

/-- What was read in place of an item, if it is made by a call, is a call that ends as it has to
there. -/
theorem called_of_item {r : Rules} {i : Item} (read : item r c = .ok (i, d))
    (made : MadeByCall i) :
    ∃ named ending, Called ⟨c.rest, false, c.last⟩ i.head.attributes named ending d.rest ∧
      Terminated named ending ∧ i.head.displaced = false ∧
      i = itemOfCall i.head named.call named.name := by
  obtain ⟨_, start, noted, later⟩ := of_bind read
  obtain ⟨⟨⟨attributes, body⟩, extent⟩, stop, told, given⟩ := of_bind later
  obtain ⟨_, _, got, given⟩ := of_bind given
  cases noted
  cases got
  cases given
  obtain ⟨_, mid, early, later⟩ := of_bind (of_placed_ok told)
  obtain ⟨_, _, bodied, got⟩ := of_bind later
  cases got
  obtain ⟨named, called, rfl⟩ := of_itemBody_call bodied made
  obtain ⟨past, ending, call, ahead, ends, terminated, kept⟩ := of_callItem called
  rw [head_itemOfCall, List.append_nil]
  exact ⟨named, ending, ⟨⟨mid, past, early, call, ahead⟩, ends⟩, terminated,
    kept.trans (displaced_of_call early call), rfl⟩

/-- What is made by a call was read as one: its tokens are those of the call, its attributes and the
semicolon that ends it, if one does. -/
theorem ReadOf.called {taken : List TokenTree} {kind : ScopeKind} {i : Item}
    (read : ReadOf taken kind i) (made : MadeByCall i) :
    ∃ c rest named ending, c.rest = taken ++ rest ∧
      Called c i.head.attributes named ending rest ∧ i.head.displaced = false ∧
      i = itemOfCall i.head named.call named.name ∧ (kind = .module → Terminated named ending) := by
  cases read with
  | @item _ _ _ c d read took _ =>
    obtain ⟨named, ending, called, terminated, placed, same⟩ := called_of_item read made
    exact ⟨⟨c.rest, false, c.last⟩, _, named, ending, took.ahead, called, placed, same,
      fun _ => terminated⟩
  | statement read took =>
    obtain ⟨attributes, named, ending, extent, called, same⟩ := of_callStatement read
    obtain rfl := Statement.item.inj (Option.some.inj (StatementShape.mk.inj same).1)
    rw [head_itemOfCall]
    exact ⟨_, _, named, ending, took.ahead, called, rfl, rfl, nofun⟩

/-- The call that an item is stands where the item was read. -/
theorem Called.stands {root taken : List TokenTree} {attributes : List String} {named : NamedCall}
    {ending rest : List TokenTree} (called : Called c attributes named ending rest)
    (tokens : c.rest = taken ++ rest) (row : Row root taken) : CallStands root named.call := by
  obtain ⟨mid, past, early, call, left⟩ := called.read
  obtain ⟨inner, head, grouped, -⟩ := of_namedCall call
  have attributed : Moves outerAttributes := inferInstance
  have moves : Moves callHead := by
    unfold callHead name?
    infer_instance
  obtain ⟨first, tookFirst⟩ := attributed.reads early
  obtain ⟨front, took⟩ := moves.reads head
  have whole : mid.rest = front ++
      .group named.call.delimiter named.call.body named.call.group :: past.rest := by
    rw [took.ahead, grouped]
  have own : taken = first ++ ((front ++
      [.group named.call.delimiter named.call.body named.call.group]) ++ ending) := by
    rw [← List.append_left_inj rest, ← tokens, tookFirst.ahead, whole, left]
    simp
  have extent : named.call.extent =
      ⟨((mid.rest.head?.map TokenTree.extent).getD ⟨.origin, .origin⟩).start,
        named.call.group.stop⟩ := by
    rw [namedCall_eq] at call
    obtain ⟨_, _, started, call⟩ := of_bind call
    cases started
    obtain ⟨_, _, _, call⟩ := of_bind call
    obtain ⟨_, _, _, given⟩ := of_bind call
    cases given
    rfl
  have nonempty : named.call.path.segments ≠ [] := by
    obtain ⟨path, _, read, later⟩ := of_bind head
    obtain ⟨_, _, _, later⟩ := of_bind later
    obtain ⟨_, _, _, given⟩ := of_bind later
    have same : path = named.call.path := congrArg (fun made => made.1.1) (Except.ok.inj given)
    rw [← same]
    exact ensures_plainPath _ _ _ read
  exact ⟨nonempty, _, row_part (own ▸ row), by simp, extent.trans (stretch_of_group whole)⟩

/-! ## Definitions -/

theorem of_itemOfCall {head own : ItemHead} {named : NamedCall} {spelling : String}
    (rules : itemOfCall head named.call named.name = .ruleSet own spelling) :
    own = head ∧ named.name = some spelling ∧ named.call.path.isWord MacroPath.definer = true := by
  unfold itemOfCall at rules
  split at rules
  next definer =>
    split at rules
    next given =>
      cases rules
      exact ⟨rfl, given, definer⟩
    next => cases rules
  next => cases rules

/-- A call that defines a rule set stands behind what is ahead, with the semicolon that ends it. -/
structure Defines (c : Cursor) (rest : List TokenTree) (head : ItemHead) (spelling : String)
    (named : NamedCall) (ending : List TokenTree) : Prop where
  called : Called c head.attributes named ending rest
  name : named.name = some spelling
  definer : named.call.path.isWord MacroPath.definer = true
  placed : head.displaced = false

/-- A rule set that was read is a call that defines it, in place of an item one that ends as it has
to there. -/
theorem ReadOf.defines {taken : List TokenTree} {kind : ScopeKind} {head : ItemHead}
    {spelling : String} (read : ReadOf taken kind (.ruleSet head spelling)) :
    ∃ c rest named ending, c.rest = taken ++ rest ∧ Defines c rest head spelling named ending ∧
      (kind = .module → Terminated named ending) := by
  obtain ⟨c, rest, named, ending, ahead, called, placed, same, terminated⟩ := read.called trivial
  obtain ⟨-, name, definer⟩ := of_itemOfCall same.symm
  exact ⟨c, rest, named, ending, ahead, ⟨called, name, definer, placed⟩, terminated⟩

end MacroExpansion.Grammar
