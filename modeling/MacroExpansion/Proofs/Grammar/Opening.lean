import MacroExpansion.Proofs.Grammar.File
import MacroExpansion.Proofs.Grammar.Source

/-!
# What an item opens with

An item starts with a word, an attribute or a path from the root on, however it was read. Main
statement: an item that was read is told where its tokens stand, and the first of them is no part of
a doc comment but its start.
-/
namespace MacroExpansion.Grammar

open TokenTree

/-- What may open an item: a word, an attribute or a path from the root on. -/
def Look.opening : Look :=
  anyOf [word, symbol "#", symbol "::"]

variable {c d : Cursor} {taken : List TokenTree}

theorem opens_of_opening {t : TokenTree} {ts : List TokenTree}
    (opening : Look.opening (t :: ts) = true) : Token.opens t.firstLexeme = true := by
  cases t with
  | ident => rfl
  | literal => cases opening
  | group => cases opening
  | punct char joint extent =>
    by_cases hash : char = '#'
    · simp [firstLexeme, Token.opens, hash]
    by_cases colon : char = ':'
    · simp [firstLexeme, Token.opens, colon]
    -- neither of the two symbols starts with another character
    have other : Look.symbol "#" (.punct char joint extent :: ts) = false := by
      simp [Look.symbol, Look.punctuation, Ne.symm hash]
    have other' : Look.symbol "::" (.punct char joint extent :: ts) = false := by
      cases joint <;> simp [Look.symbol, Look.punctuation, Ne.symm colon]
    simp [Look.opening, Look.anyOf, Look.word, other, other'] at opening

/-- Without a word or a path ahead there is no item. -/
theorem itemForm_refuses (wordless : Look.word c.rest = false)
    (rootless : Look.symbol "::" c.rest = false) : itemForm c = Attempt.fail .unexpected := by
  have words (spellings : List String) : Look.anyKeyword spellings c.rest = false := by
    unfold Look.word at wordless
    unfold Look.anyKeyword
    split at wordless <;> simp_all
  have named : Look.name c.rest = false := by
    unfold Look.word at wordless
    unfold Look.name
    split at wordless <;> simp_all
  have other (spelling : String) : Look.keyword spelling c.rest = false := by
    unfold Look.word at wordless
    unfold Look.keyword
    split at wordless <;> simp_all
  have asked {look : Look} (no : look c.rest = false) : peek look c = .ok (false, c) := by
    rw [peek, no]
  have noKeyword (spelling : String) : keyword? spelling c = .ok (false, c) := by
    rw [keyword?, bind_ok (asked (other spelling))]
    rfl
  have visible : visibility? c = .ok (false, c) := by
    have rooted : peek (.butNot (.keyword "crate") (.second (.symbol "::"))) c = .ok (false, c) :=
      asked (by simp [Look.butNot, other])
    rw [visibility?, bind_ok (noKeyword _)]
    simp [bind_ok rooted]
    rfl
  have noSignature : signatureAhead c = .ok (false, c) := by
    have convention : callingConvention? c = .ok ((), c) := by
      rw [callingConvention?, bind_ok (asked (other _))]
      rfl
    unfold signatureAhead ahead
    simp only [bind_ok (noKeyword _), bind_ok convention, asked (other _)]
  have call : callStart c.rest = false := by simp [callStart, Look.anyOf, named, words, rootless]
  have noUnion : peek (.both (.keyword "union") (.second .name)) c = .ok (false, c) :=
    asked (by simp [Look.both, other])
  have noAuto : peek (.both (.keyword "auto") (.second (.keyword "trait"))) c = .ok (false, c) :=
    asked (by simp [Look.both, other])
  have noImplementation : peek (.either (.keyword "impl")
      (.butNot (.keyword "default") (.second (.symbol "!")))) c = .ok (false, c) :=
    asked (by simp [Look.either, Look.butNot, other])
  unfold itemForm ahead
  simp only [bind_ok visible, bind_ok noSignature, bind_ok (noKeyword _), bind_ok (asked (other _)),
    bind_ok noUnion, bind_ok noAuto, bind_ok noImplementation,
    Bool.false_eq_true, ↓reduceIte, Bool.not_false,
    bind_ok (asked call), Bool.true_and]
  rfl

theorem outerAttributes_of_none (bare : Look.symbol "#" c.rest = false) :
    outerAttributes c = .ok ([], c) :=
  untilStop_stopped (by rw [bare]; rfl)

/-- A path from where it stands starts with a word. -/
theorem word_of_segments {segments : List String}
    (read : plainPath.separatedSegments c = .ok (segments, d)) : Look.word c.rest = true := by
  obtain ⟨_, _, loop, -⟩ := of_bind read
  rw [rounds_eq, roundsWithin] at loop
  obtain ⟨_, _, round, -⟩ := of_bind loop
  obtain ⟨segment, -⟩ := of_unless round
  unfold Look.word
  split
  · rfl
  · cases ahead : c.rest with
    | nil =>
      rw [ahead] at segment
      cases segment
    | cons t ts =>
      rw [ahead] at segment
      cases t <;> simp_all [plainSegment, Look.either, Look.name, Look.anyKeyword]

theorem opening_of_plainPath {path : MacroPath} (read : plainPath c = .ok (path, d)) :
    Look.opening c.rest = true := by
  cases rooted : Look.symbol "::" c.rest with
  | true => simp [Look.opening, Look.anyOf, rooted]
  | false =>
    have unrooted : symbol? "::" c = .ok (false, c) := by
      rw [symbol?, bind_ok (show peek _ c = .ok (false, c) by rw [peek, rooted])]
      rfl
    rw [plainPath, bind_ok unrooted] at read
    obtain ⟨_, _, segments, -⟩ := of_bind read
    simp [Look.opening, Look.anyOf, word_of_segments segments]

/-- What follows attributes opens with them or with what opens it alone. -/
theorem opening_of_attributed {α : Type} {f : List String → Parser α} {a : α}
    (read : (outerAttributes >>= f) c = .ok (a, d))
    (bare : ∀ names, f names c = .ok (a, d) → Look.opening c.rest = true) :
    Look.opening c.rest = true := by
  cases marked : Look.symbol "#" c.rest with
  | true => simp [Look.opening, Look.anyOf, marked]
  | false =>
    rw [bind_ok (outerAttributes_of_none marked)] at read
    exact bare [] read

/-- What is read with its stretch is read. -/
theorem of_placed_ok {α : Type} {p : Parser α} {a : α} {extent : Extent}
    (read : placed p c = .ok ((a, extent), d)) : p c = .ok (a, d) := by
  obtain ⟨_, _, got, read⟩ := of_bind read
  cases got
  obtain ⟨_, _, inner, read⟩ := of_bind read
  obtain ⟨_, _, got, given⟩ := of_bind read
  cases got
  cases given
  exact inner

theorem opening_of_item {r : Rules} {i : Item} (read : item r c = .ok (i, d)) :
    Look.opening c.rest = true := by
  obtain ⟨_, start, noted, later⟩ := of_bind read
  obtain ⟨⟨⟨attributes, body⟩, extent⟩, _, told, -⟩ := of_bind later
  cases noted
  refine opening_of_attributed (c := { c with displaced := false }) (of_placed_ok told)
    fun _ bare => ?_
  obtain ⟨_, _, read, -⟩ := of_bind bare
  obtain ⟨_, _, form, -⟩ := of_bind read
  by_contra unopened
  simp only [Look.opening, Look.anyOf, List.any_cons, List.any_nil, Bool.or_false, Bool.or_eq_true,
    not_or, Bool.not_eq_true] at unopened
  have refused := itemForm_refuses (c := ⟨c.rest, false, c.last⟩) unopened.1 unopened.2.2
  rw [refused] at form
  cases form

/-! ## Calls -/

/-- A name, if one stands ahead. -/
def name? : Parser (Option String) := do
  if ← peek .name then some <$> name else pure none

/-- A call up to its group: the path, and the name behind the mark if there is one. -/
def callHead : Parser (MacroPath × Option String) := do
  let path ← plainPath
  symbol "!"
  return (path, ← name?)

theorem Advances.some_name : Advances (some <$> Grammar.name) := by
  rw [← bind_pure_comp]
  exact Advances.name.bind fun _ => .pure _

theorem Advances.name? : Advances Grammar.name? := by
  refine (Advances.peek _).bind fun seen => ?_
  split
  · exact Advances.some_name
  · exact .pure none

theorem Advances.callHead : Advances Grammar.callHead :=
  .bind .plainPath fun _ => (Advances.symbol "!").bind fun _ => Advances.name?.bind fun _ => .pure _

theorem namedCall_eq : namedCall = (do
    let start ← here
    let (path, spelling) ← callHead
    let (delimiter, body, extent) ← anyGroup
    return ⟨spelling, path, delimiter, body, extent, ⟨start, extent.stop⟩⟩) := by
  unfold namedCall callHead name?
  simp only [bind_assoc]
  congr 1
  funext start
  congr 1
  funext path
  congr 1
  funext _
  congr 1
  funext named
  cases named <;> simp only [Bool.false_eq_true, ↓reduceIte, pure_bind]

theorem displaced_of_tree {t : TokenTree} (read : tree c = .ok (t, d)) :
    d.displaced = c.displaced := by
  unfold tree at read
  split at read <;> cases read
  rfl

/-- A call is its head and a group. -/
theorem of_namedCall {named : NamedCall} (read : namedCall c = .ok (named, d)) :
    ∃ mid, callHead c = .ok ((named.call.path, named.name), mid) ∧
      mid.rest = .group named.call.delimiter named.call.body named.call.group :: d.rest ∧
      d.displaced = mid.displaced := by
  rw [namedCall_eq] at read
  obtain ⟨_, _, started, read⟩ := of_bind read
  cases started
  obtain ⟨⟨path, spelling⟩, mid, head, read⟩ := of_bind read
  obtain ⟨⟨delimiter, body, extent⟩, _, grouped, given⟩ := of_bind read
  cases given
  obtain ⟨t, _, first, got⟩ := of_bind grouped
  have kept := displaced_of_tree first
  split at got <;> cases got
  exact ⟨mid, head, of_tree first, kept⟩

theorem namedCall_of_head {path : MacroPath} {spelling : Option String} {delimiter : Delimiter}
    {body rest : List TokenTree} {extent : Extent} {mid : Cursor}
    (head : callHead c = .ok ((path, spelling), mid))
    (ahead : mid.rest = .group delimiter body extent :: rest) :
    ∃ start, namedCall c = .ok (⟨spelling, path, delimiter, body, extent, ⟨start, extent.stop⟩⟩,
      ⟨rest, mid.displaced, some extent⟩) := by
  have read : tree mid =
      .ok (.group delimiter body extent, ⟨rest, mid.displaced, some extent⟩) := by
    rw [tree, ahead]
    rfl
  have grouped : anyGroup mid =
      .ok ((delimiter, body, extent), ⟨rest, mid.displaced, some extent⟩) := bind_ok read
  refine ⟨((c.rest.head?.map TokenTree.extent).getD ⟨.origin, .origin⟩).start, ?_⟩
  rw [namedCall_eq]
  exact (bind_ok rfl).trans ((bind_ok head).trans (bind_ok grouped))

theorem opening_of_namedCall {named : NamedCall} (read : namedCall c = .ok (named, d)) :
    Look.opening c.rest = true := by
  obtain ⟨_, head, -⟩ := of_namedCall read
  obtain ⟨_, _, path, -⟩ := of_bind head
  exact opening_of_plainPath path

theorem head_itemOfCall (head : ItemHead) (call : MacroCall) (spelling : Option String) :
    (itemOfCall head call spelling).head = head := by
  unfold itemOfCall
  split
  · split <;> rfl
  · rfl

/-- A semicolon that ends a call, or nothing. -/
def Semicolon (ts : List TokenTree) : Prop :=
  ts = [] ∨ ∃ joint extent, ts = [.punct ';' joint extent]

/-- A call stands ahead, behind its attributes, and with `ending` after it. -/
structure Called (c : Cursor) (attributes : List String) (named : NamedCall)
    (ending rest : List TokenTree) : Prop where
  read : ∃ mid past, outerAttributes c = .ok (attributes, mid) ∧
    namedCall mid = .ok (named, past) ∧ past.rest = ending ++ rest
  ends : Semicolon ending

/-- The tokens of a call end with its group and its semicolon. -/
theorem Called.ahead {attributes : List String} {named : NamedCall} {ending rest : List TokenTree}
    (called : Called c attributes named ending rest) :
    ∃ front, c.rest = front ++
      .group named.call.delimiter named.call.body named.call.group :: (ending ++ rest) := by
  obtain ⟨mid, past, early, call, left⟩ := called.read
  obtain ⟨inner, head, grouped, -⟩ := of_namedCall call
  have attributed : Moves outerAttributes := inferInstance
  have moves : Moves callHead := by
    unfold callHead name?
    infer_instance
  obtain ⟨_, tookFirst⟩ := attributed.reads early
  obtain ⟨_, took⟩ := moves.reads head
  have whole := (tookFirst.trans took).ahead
  rw [grouped, left] at whole
  exact ⟨_, whole⟩

theorem Called.opening {attributes : List String} {named : NamedCall}
    {ending rest : List TokenTree} (called : Called c attributes named ending rest) :
    Look.opening c.rest = true := by
  obtain ⟨mid, past, early, call, -⟩ := called.read
  have whole : (outerAttributes >>= fun _ => namedCall) c = .ok (named, past) :=
    (bind_ok early).trans call
  exact opening_of_attributed whole fun _ bare => opening_of_namedCall bare

/-- A symbol of one character is one token. -/
theorem of_mark {mark : Char} {text : String} (single : text.toList = [mark])
    (read : symbol text c = .ok ((), d)) :
    (∃ joint extent, c.rest = .punct mark joint extent :: d.rest) ∧ d.displaced = c.displaced := by
  obtain ⟨yes, through⟩ := of_unless read
  have one : text.length = 1 := by rw [← String.length_toList, single]; rfl
  rw [one] at through
  obtain ⟨t, _, first, rest⟩ := of_bind through
  cases rest
  refine ⟨?_, displaced_of_tree first⟩
  rw [Look.symbol, single, of_tree first] at yes
  rw [of_tree first]
  cases t with
  | punct char joint extent =>
    obtain rfl : mark = char := by simpa [Look.punctuation] using yes
    exact ⟨joint, extent, rfl⟩
  | _ => cases yes

/-- A symbol that may stand ahead is read if it does. -/
theorem of_symbol? {text : String} {seen : Bool} (read : symbol? text c = .ok (seen, d)) :
    (seen = true ∧ symbol text c = .ok ((), d)) ∨
      (seen = false ∧ d = c ∧ Look.symbol text c.rest = false) := by
  obtain ⟨_, mid, looked, later⟩ := of_bind read
  obtain ⟨rfl, rfl⟩ := of_peek looked
  split at later
  next yes =>
    obtain ⟨_, _, through, given⟩ := of_bind later
    cases given
    refine .inl ⟨rfl, ?_⟩
    rw [symbol, bind_ok looked, if_pos yes]
    exact through
  next no =>
    cases later
    rw [Bool.not_eq_true] at no
    exact .inr ⟨rfl, rfl, no⟩

theorem of_semicolon? {seen : Bool} (read : symbol? ";" c = .ok (seen, d)) :
    ∃ ending, Semicolon ending ∧ c.rest = ending ++ d.rest := by
  rcases of_symbol? read with ⟨-, marked⟩ | ⟨-, rfl, -⟩
  · obtain ⟨⟨joint, extent, ahead⟩, -⟩ := of_mark rfl marked
    exact ⟨_, .inr ⟨joint, extent, rfl⟩, ahead⟩
  · exact ⟨[], .inl rfl, rfl⟩

theorem of_callStatement {shape : StatementShape} (read : callStatement c = .ok (shape, d)) :
    ∃ attributes named ending extent, Called c attributes named ending d.rest ∧ shape =
      ⟨some (.item (itemOfCall ⟨attributes, extent, false⟩ named.call named.name)), false⟩ := by
  obtain ⟨⟨⟨attributes, named⟩, extent⟩, _, told, given⟩ := of_bind read
  cases given
  obtain ⟨_, mid, early, later⟩ := of_bind (of_placed_ok told)
  obtain ⟨_, past, call, later⟩ := of_bind later
  obtain ⟨_, _, ended, given⟩ := of_bind later
  cases given
  obtain ⟨ending, ends, ahead⟩ := of_semicolon? ended
  exact ⟨attributes, named, ending, extent, ⟨⟨mid, past, early, call, ahead⟩, ends⟩, rfl⟩

/-! ## The tokens of an item -/

namespace ReadOf

variable {kind : ScopeKind} {i : Item}

/-- The last token of an item is a group or a semicolon. -/
theorem last (read : ReadOf taken kind i) :
    ∃ front u, taken = front ++ [u] ∧ ((∃ joint extent, u = .punct ';' joint extent) ∨
      ∃ d content extent, u = .group d content extent) := by
  cases read with
  | item _ _ closed =>
    obtain ⟨front, u, rfl, closes⟩ := closed
    refine ⟨front, u, rfl, ?_⟩
    unfold ClosesItem at closes
    split at closes
    · exact .inr ⟨_, _, _, rfl⟩
    · exact .inl ⟨_, _, rfl⟩
    · exact closes.elim
  | statement read took =>
    obtain ⟨attributes, named, ending, extent, called, -⟩ := of_callStatement read
    obtain ⟨front, ahead⟩ := called.ahead
    rw [took.ahead, ← List.cons_append, ← List.append_assoc] at ahead
    obtain rfl := List.append_cancel_right ahead
    rcases called.ends with rfl | ⟨joint, place, rfl⟩
    · exact ⟨front, _, rfl, .inr ⟨_, _, _, rfl⟩⟩
    · exact ⟨front ++ [.group _ named.call.body named.call.group], _, List.append_cons _ _ _,
        .inl ⟨joint, place, rfl⟩⟩

theorem not_nil (read : ReadOf taken kind i) : taken ≠ [] := by
  obtain ⟨front, u, rfl, -⟩ := read.last
  exact List.append_ne_nil_of_right_ne_nil front (List.cons_ne_nil u [])

theorem opening (read : ReadOf taken kind i) {t : TokenTree} (first : taken.head? = some t) :
    Token.opens t.firstLexeme = true := by
  obtain ⟨later, rfl⟩ := List.head?_eq_some_iff.mp first
  cases read with
  | item read took =>
    have opening := opening_of_item read
    rw [took.ahead] at opening
    exact opens_of_opening opening
  | statement read took =>
    obtain ⟨attributes, named, ending, extent, called, -⟩ := of_callStatement read
    have opening := called.opening
    rw [took.ahead] at opening
    exact opens_of_opening opening

/-- An item is told where its tokens stand. -/
theorem extent (read : ReadOf taken kind i) :
    i.head.extent = stretch taken := by
  cases read with
  | item read took closed => exact extent_of_item read took closed
  | statement read took =>
    have full := (ReadOf.statement read took).not_nil
    obtain ⟨⟨⟨attributes, named⟩, extent⟩, _, told, given⟩ := of_bind read
    cases given
    rw [head_itemOfCall]
    exact of_placed told ⟨took.ahead, took.last⟩ full

end ReadOf

end MacroExpansion.Grammar
