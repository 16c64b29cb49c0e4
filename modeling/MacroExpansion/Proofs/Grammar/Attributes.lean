import MacroExpansion.Proofs.Grammar.Opening

/-!
# The attributes of an item

An item has the attributes in front of it and, if it is a function, a module, an implementation, a
trait or a foreign block, those at the start of its braces. Main statement: which attributes an item
has shows in its own tokens.
-/
namespace MacroExpansion

/-- Whether the attributes at the start of the braces of an element count as its own. -/
def ElementKind.joinsInner : ElementKind → Bool
  | .foreignBlock | .function | .impl | .module | .trait => true
  | _ => false

/-- What is in the braces that a token is, if it is braces. -/
def TokenTree.inBraces : TokenTree → List TokenTree
  | .group .brace content _ => content
  | _ => []

end MacroExpansion

namespace MacroExpansion.Grammar

open TokenTree

/-! ## Attributes as they are written -/

/-- The words of the path that some tokens start with. -/
def pathWords : List TokenTree → List String
  | .ident word _ :: .punct ':' true _ :: .punct ':' _ _ :: later => word :: pathWords later
  | .ident word _ :: _ => [word]
  | _ => []

/-- The path that the brackets of an attribute start with, but for a `::` in front of it. -/
def writtenPath : List TokenTree → String
  | .punct ':' true _ :: .punct ':' _ _ :: later => "::".intercalate (pathWords later)
  | content => "::".intercalate (pathWords content)

/-- The paths of the attributes that stand first among some tokens, in order. -/
def outerPaths : List TokenTree → List String
  | .punct '#' _ _ :: .group .bracket content _ :: later => writtenPath content :: outerPaths later
  | _ => []

/-- The paths of the inner attributes that stand first among some tokens, in order. -/
def innerPaths : List TokenTree → List String
  | .punct '#' _ _ :: .punct '!' _ _ :: .group .bracket content _ :: later =>
    writtenPath content :: innerPaths later
  | _ => []

/-- What stands behind the inner attributes that stand first among some tokens. -/
def behindInner : List TokenTree → List TokenTree
  | .punct '#' _ _ :: .punct '!' _ _ :: .group .bracket _ _ :: later => behindInner later
  | tokens => tokens

/-- What is in the braces that some tokens end with, if they do. -/
def inClosingBraces (tokens : List TokenTree) : List TokenTree :=
  (tokens.getLast?.map inBraces).getD []

/-- The paths of the attributes that an element of some kind has if these are its tokens. -/
def attributePaths (kind : ElementKind) (tokens : List TokenTree) : List String :=
  outerPaths tokens ++ if kind.joinsInner then innerPaths (inClosingBraces tokens) else []

/-- The attributes are those in front just if there are none in braces that count as well. -/
theorem attributePaths_eq_outerPaths_iff {kind : ElementKind} {tokens : List TokenTree} :
    attributePaths kind tokens = outerPaths tokens ↔
      (kind.joinsInner = true → innerPaths (inClosingBraces tokens) = []) := by
  unfold attributePaths
  split
  next joins => simp [joins]
  next apart => simp [apart]

theorem outerPaths_of_unmarked {ts : List TokenTree} (unmarked : Look.symbol "#" ts = false) :
    outerPaths ts = [] := by
  unfold outerPaths
  split
  · cases unmarked
  · rfl

theorem innerPaths_of_unmarked {ts : List TokenTree} (unmarked : Look.innerAttribute ts = false) :
    innerPaths ts = [] ∧ behindInner ts = ts := by
  unfold innerPaths behindInner
  split
  · cases unmarked
  · exact ⟨rfl, rfl⟩

theorem pathWords_of_last {word : String} {extent : Extent} {ts : List TokenTree}
    (last : Look.symbol "::" ts = false) : pathWords (.ident word extent :: ts) = [word] := by
  unfold pathWords
  split
  next same =>
    obtain ⟨-, rfl⟩ := List.cons.inj same
    cases last
  next same =>
    obtain ⟨same, -⟩ := List.cons.inj same
    cases same
    rfl
  next other => exact absurd rfl (other word extent ts)

theorem writtenPath_of_unrooted {ts : List TokenTree} (unrooted : Look.symbol "::" ts = false) :
    writtenPath ts = "::".intercalate (pathWords ts) := by
  unfold writtenPath
  split
  · cases unrooted
  · rfl

/-! ## Attributes as they are read -/

variable {c d : Cursor}

/-- What is read one by one until something stands ahead is told from the last of it on. -/
@[elab_as_elim]
theorem untilStop_induction {α : Type} {stop : Look} {p : Parser α}
    {motive : Cursor → List α → Cursor → Prop} {as : List α}
    (read : untilStop stop p c = .ok (as, d)) (stopped : ∀ c, stop c.rest = true → motive c [] c)
    (next : ∀ c a mid as d, stop c.rest = false → p c = .ok (a, mid) → motive mid as d →
      motive c (a :: as) d) : motive c as d := by
  obtain ⟨_, _, loop, given⟩ := of_bind read
  cases given
  rw [rounds_eq] at loop
  have within (n : Nat) : ∀ {c before after}, roundsWithin (fun (read : List α) => do
      if ← peek stop then return (read, false)
      let a ← p
      return (a :: read, true)) n before c = .ok (after, d) →
      ∃ as, after = as.reverse ++ before ∧ motive c as d := by
    induction n with
    | zero => exact fun loop => by cases loop
    | succ n ih =>
      intro c before after loop
      obtain ⟨⟨_, more⟩, mid, round, later⟩ := of_bind loop
      obtain ⟨seen, _, looked, round⟩ := of_bind round
      obtain ⟨rfl, rfl⟩ := of_peek looked
      split at round
      next stops =>
        cases round
        cases later
        exact ⟨[], rfl, stopped _ stops⟩
      next goes =>
        obtain ⟨a, _, one, given⟩ := of_bind round
        cases given
        obtain ⟨as, same, holds⟩ := ih later
        exact ⟨a :: as, by simp [same], next _ _ _ _ _ (by simpa using goes) one holds⟩
  obtain ⟨as, same, holds⟩ := within _ loop
  simpa [same] using holds

/-- Two colons are read where they stand ahead. -/
theorem of_colons? {seen : Bool} (read : symbol? "::" c = .ok (seen, d)) :
    (seen = true ∧ ∃ first joint second,
      c.rest = .punct ':' true first :: .punct ':' joint second :: d.rest) ∨
      (seen = false ∧ d = c ∧ Look.symbol "::" c.rest = false) := by
  refine (of_symbol? read).imp_left fun ⟨seen, read⟩ => ⟨seen, ?_⟩
  obtain ⟨yes, through⟩ := of_unless read
  obtain ⟨t, _, first, through⟩ := of_bind through
  obtain ⟨u, _, second, through⟩ := of_bind through
  cases through
  rw [of_tree first, of_tree second] at yes ⊢
  unfold Look.symbol at yes
  cases t with
  | punct char joint extent =>
    cases u with
    | punct char' joint' extent' =>
      cases joint with
      | true =>
        obtain ⟨rfl, rfl⟩ : ':' = char ∧ ':' = char' := by simpa [Look.punctuation] using yes
        exact ⟨extent, joint', extent', rfl⟩
      | false => simp [Look.punctuation] at yes
    | _ => cases joint <;> simp [Look.punctuation] at yes
  | _ => cases yes

theorem words_of_segments {segments : List String}
    (read : plainPath.separatedSegments c = .ok (segments, d)) : segments = pathWords c.rest := by
  obtain ⟨_, _, loop, given⟩ := of_bind read
  cases given
  rw [rounds_eq] at loop
  have within (n : Nat) : ∀ {c before after}, roundsWithin (fun (read : List String) => do
      unless ← peek plainSegment do refuse
      let read := (← word) :: read
      return (read, ← symbol? "::")) n before c = .ok (after, d) →
      after = (pathWords c.rest).reverse ++ before := by
    induction n with
    | zero => exact fun loop => by cases loop
    | succ n ih =>
      intro c before after loop
      obtain ⟨⟨_, more⟩, mid, round, later⟩ := of_bind loop
      obtain ⟨-, round⟩ := of_unless round
      obtain ⟨spelling, _, first, round⟩ := of_bind round
      obtain ⟨extent, ahead⟩ := of_word first
      obtain ⟨_, _, separator, given⟩ := of_bind round
      cases given
      rcases of_colons? separator with ⟨rfl, _, _, _, colons⟩ | ⟨rfl, rfl, last⟩
      · rw [ahead, colons, pathWords, ih later]
        simp
      · cases later
        rw [ahead, pathWords_of_last last]
        rfl
  rw [within _ loop]
  simp

theorem written_of_plainPath {path : MacroPath} (read : plainPath c = .ok (path, d)) :
    attributeName path = writtenPath c.rest := by
  obtain ⟨_, _, root, later⟩ := of_bind read
  obtain ⟨segments, _, words, given⟩ := of_bind later
  cases given
  rw [attributeName, words_of_segments words]
  rcases of_colons? root with ⟨rfl, _, _, _, colons⟩ | ⟨rfl, rfl, unrooted⟩
  · rw [colons]
    rfl
  · rw [writtenPath_of_unrooted unrooted]

theorem of_attributeBrackets {spelling : String} (read : attributeBrackets c = .ok (spelling, d)) :
    ∃ content extent, c.rest = .group .bracket content extent :: d.rest ∧
      spelling = writtenPath content := by
  obtain ⟨path, _, inner, given⟩ := of_bind read
  cases given
  obtain ⟨content, extent, _, group, within, -⟩ := Tracks.of_delimited inner
  obtain ⟨path, _, first, within⟩ := of_bind within
  obtain ⟨_, _, _, given⟩ := of_bind within
  cases given
  exact ⟨content, extent, group, written_of_plainPath first⟩

/-- The attributes in front of an item are those that stand first among the tokens ahead, and stand
first as well with other tokens behind them. -/
theorem outer_of_outerAttributes {names : List String}
    (read : outerAttributes c = .ok (names, d)) :
    Look.symbol "#" d.rest = false ∧ ∃ front, c.rest = front ++ d.rest ∧
      ∀ later, Look.symbol "#" later = false → outerPaths (front ++ later) = names := by
  refine untilStop_induction read (fun c stops => ?_) fun c _ _ _ d _ one holds => ?_
  · exact ⟨by simpa using stops, [], rfl, fun _ => outerPaths_of_unmarked⟩
  · obtain ⟨_, _, hash, brackets⟩ := of_bind one
    obtain ⟨⟨joint, place, marked⟩, -⟩ := of_mark rfl hash
    obtain ⟨content, extent, group, rfl⟩ := of_attributeBrackets brackets
    obtain ⟨unmarked, front, ahead, rest⟩ := holds
    refine ⟨unmarked, .punct '#' joint place :: .group .bracket content extent :: front, ?_, ?_⟩
    · rw [marked, group, ahead]
      rfl
    · intro later bare
      rw [← rest later bare]
      rfl

/-- Inner attributes are those that stand first among the tokens ahead. -/
theorem inner_of_innerAttributes {names : List String}
    (read : innerAttributes c = .ok (names, d)) :
    names = innerPaths c.rest ∧ d.rest = behindInner c.rest := by
  refine untilStop_induction read (fun c stops => ?_) fun c _ _ _ d _ one holds => ?_
  · have unmarked : Look.innerAttribute c.rest = false := by
      rw [Look.innerAttribute, Look.both, ← Bool.not_eq_true']
      exact stops
    obtain ⟨paths, behind⟩ := innerPaths_of_unmarked unmarked
    exact ⟨paths.symm, behind.symm⟩
  · obtain ⟨_, _, hash, one⟩ := of_bind one
    obtain ⟨_, _, bang, brackets⟩ := of_bind one
    obtain ⟨⟨_, _, marked⟩, -⟩ := of_mark rfl hash
    obtain ⟨⟨_, _, banged⟩, -⟩ := of_mark rfl bang
    obtain ⟨content, _, group, rfl⟩ := of_attributeBrackets brackets
    rw [marked, banged, group]
    exact ⟨by rw [holds.1]; rfl, holds.2⟩

/-- What starts with the attributes of an item starts with none of what it stands in. -/
theorem bare_of_outerAttributes {names : List String} (read : outerAttributes c = .ok (names, d)) :
    Look.innerAttribute c.rest = false := by
  refine untilStop_induction read (fun c stops => ?_) fun c _ _ _ _ _ one _ => ?_
  · simp [Look.innerAttribute, Look.both, (Bool.not_eq_true' _).mp stops]
  · obtain ⟨_, _, hash, brackets⟩ := of_bind one
    obtain ⟨⟨_, _, marked⟩, -⟩ := of_mark rfl hash
    obtain ⟨content, _, group, -⟩ := of_attributeBrackets brackets
    rw [marked, group]
    rfl

/-- The marks of an attribute of a file are followed by brackets. -/
theorem brackets_of_innerAttributes {names : List String}
    (read : innerAttributes c = .ok (names, d)) :
    Look.innerAttribute c.rest = true →
      ∃ t u content extent later, c.rest = t :: u :: .group .bracket content extent :: later := by
  refine untilStop_induction read (fun c stops marked => ?_) fun c _ _ _ _ _ one _ _ => ?_
  · rw [Look.innerAttribute, Look.both, (Bool.not_eq_true' _).mp stops] at marked
    cases marked
  · obtain ⟨_, _, hash, one⟩ := of_bind one
    obtain ⟨_, _, bang, brackets⟩ := of_bind one
    obtain ⟨⟨_, _, marked⟩, -⟩ := of_mark rfl hash
    obtain ⟨⟨_, _, banged⟩, -⟩ := of_mark rfl bang
    obtain ⟨content, _, group, -⟩ := of_attributeBrackets brackets
    exact ⟨_, _, content, _, _, by rw [marked, banged, group]⟩

/-! ## Doc comments -/

/-- A doc comment stands for an attribute, whose path is `doc`. -/
theorem paths_of_docComment {here : Position} {cs : List Char} {lexemes : List PlacedLexeme}
    {ts : List TokenTree} {doc : Lexeme.DocComment} (scans : Token.Scans here cs lexemes)
    (reads : Reads lexemes ts) (found : Lexeme.docComment? (Text.skipSeparators cs) = some doc) :
    ∃ there more later, Token.Scans there doc.rest more ∧ Reads more later ∧
      (doc.inner = false → outerPaths ts = "doc" :: outerPaths later) ∧
      (doc.inner = true → innerPaths ts = "doc" :: innerPaths later) := by
  cases scans with
  | done nothing =>
    rw [nothing] at found
    cases found
  | @step _ _ blank taken rest lexemes more text skipped read after =>
    rw [← skipped, Lexeme.next?, found] at read
    dsimp only at read
    split at read
    · cases read
    cases read
    generalize (here.after blank).after taken = there at after reads
    generalize (⟨here.after blank, there⟩ : Extent) = place at reads
    have brackets : Reads ([.opening .bracket, .ident "doc", .punct '=' false,
        .literal (String.ofList (Text.stringLiteral doc.content)), .closing .bracket].map
          fun lexeme => ⟨lexeme, place⟩) _ :=
      .group (.leaf rfl (.leaf rfl (.leaf rfl .done))) .done
    unfold Lexeme.ofDocComment at reads
    cases inner : doc.inner with
    | true =>
      rw [inner] at reads
      have mark : Reads (([.punct '#' false, .punct '!' false] : List Lexeme).map
          fun lexeme => ⟨lexeme, place⟩) _ := .leaf rfl (.leaf rfl .done)
      obtain ⟨later, rfl, behind⟩ := (mark.append brackets).of_append reads
      exact ⟨there, more, later, after, behind, (by cases ·), fun _ => rfl⟩
    | false =>
      rw [inner] at reads
      have mark : Reads (([.punct '#' false] : List Lexeme).map fun lexeme => ⟨lexeme, place⟩) _ :=
        .leaf rfl .done
      obtain ⟨later, rfl, behind⟩ := (mark.append brackets).of_append reads
      exact ⟨there, more, later, after, behind, fun _ => rfl, (by cases ·)⟩

/-! ## The last token of an item -/

section

variable {α β : Type} {told : TokenTree → α → Prop} {given : TokenTree → β → Prop}

/-- What `p` gives is as told of the last token that it reads, or of any. -/
def Ends (p : Parser α) (told : TokenTree → α → Prop) : Prop :=
  ∀ c a d, p c = .ok (a, d) →
    (∀ t, told t a) ∨ ∃ front t, c.rest = front ++ t :: d.rest ∧ told t a

namespace Ends

theorem of_ensures {p : Parser α} (h : Ensures p fun a => ∀ t, told t a) : Ends p told :=
  fun c a d read => .inl (h c a d read)

theorem bind {p : Parser β} [moves : Moves p] {f : β → Parser α}
    (later : ∀ b, Ends (f b) told) : Ends (p >>= f) told :=
  fun _ _ _ read => by
    obtain ⟨b, _, early, late⟩ := of_bind read
    obtain ⟨taken, took⟩ := moves.reads early
    refine (later b _ _ _ late).imp_right fun ⟨front, t, ahead, holds⟩ => ?_
    exact ⟨taken ++ front, t, by rw [took.ahead, ahead, List.append_assoc], holds⟩

/-- What is done after the last token. -/
theorem followed {p : Parser β} {f : β → Parser α} (first : Ends p given)
    (still : ∀ b, Still Any (f b) (f b)) (later : ∀ t b, given t b → Ensures (f b) (told t)) :
    Ends (p >>= f) told :=
  fun _ _ _ read => by
    obtain ⟨b, _, early, late⟩ := of_bind read
    have rest := ((still b).reads late).ahead
    rcases first _ _ _ early with all | ⟨front, t, ahead, holds⟩
    · exact .inl fun t => later t b (all t) _ _ _ late
    · rw [rest] at ahead
      exact .inr ⟨front, t, ahead, later t b holds _ _ _ late⟩

/-- Braces are given with the inner attributes that they start with. -/
theorem braces {names : α → List String} {f : List String → Parser α}
    (keeps : ∀ attributes, Ensures (f attributes) fun a => names a = attributes) :
    Ends (delimited .brace (innerAttributes >>= f)) fun t a => names a = innerPaths t.inBraces :=
  fun c a d read => by
    obtain ⟨content, extent, _, ahead, within, -⟩ := Tracks.of_delimited read
    obtain ⟨attributes, _, inner, later⟩ := of_bind within
    refine .inr ⟨[], _, ahead, (keeps attributes _ _ _ later).trans ?_⟩
    exact (inner_of_innerAttributes inner).1

/-- A semicolon may stand where there are no braces. -/
theorem semicolon? {p q : Parser α} (still : Still Any p p)
    (yes : ∀ joint extent, Ensures p (told (.punct ';' joint extent))) (no : Ends q told) :
    Ends (do
      if ← Grammar.symbol? ";" then p
      else q) told :=
  fun c a d read => by
    obtain ⟨seen, mid, early, late⟩ := of_bind read
    rcases of_symbol? early with ⟨rfl, marked⟩ | ⟨rfl, rfl, -⟩
    · obtain ⟨⟨joint, extent, ahead⟩, -⟩ := of_mark rfl marked
      have rest : mid.rest = d.rest := (still.reads late).ahead
      exact .inr ⟨[], _, by rw [ahead, rest]; rfl, yes joint extent _ _ _ late⟩
    · exact no _ _ _ late

end Ends

end

/-- The attributes that an item has of its braces are those that its last token starts with. -/
def ItemBody.Joins (t : TokenTree) (body : ItemBody) : Prop :=
  ∀ head description, (body.build head).describe = some description →
    body.attributes = if description.kind.joinsInner then innerPaths t.inBraces else []

namespace ItemBody

theorem joins_raw (t : TokenTree) : ItemBody.raw.Joins t := nofun

/-- An item of a kind that the attributes in its braces do not count for has none of them. -/
theorem joins_of_bare {body : ItemBody} (unattributed : body.attributes = [])
    (bare : ∀ head description, (body.build head).describe = some description →
      description.kind.joinsInner = false) (t : TokenTree) : body.Joins t :=
  fun head description told => by rw [unattributed, if_neg (by simp [bare head description told])]

/-- An item of a kind that the attributes in its braces count for has all of them. -/
theorem joins_of_inner {t : TokenTree} {body : ItemBody}
    (inner : body.attributes = innerPaths t.inBraces)
    (joins : ∀ head description, (body.build head).describe = some description →
      description.kind.joinsInner = true) : body.Joins t :=
  fun head description told => by rw [inner, if_pos (joins head description told)]

end ItemBody

section

variable {r : Rules} [tracked : Rules.Tracked (fun _ => False) r r]

theorem ends_functionItem : Ends (functionItem r) fun t body => body.Joins t := by
  have block : Ends (attributedBlock r) fun t body => body.1 = innerPaths t.inBraces :=
    .braces fun _ => .bind fun _ => .pure rfl
  refine .bind fun _ => .bind fun _ =>
    .semicolon? inferInstance (fun _ _ => .pure (ItemBody.joins_raw _)) ?_
  refine block.followed (fun (_, _) => inferInstance) fun t (_, _) inner => .pure ?_
  exact ItemBody.joins_of_inner inner fun _ _ same => by cases same; rfl

omit tracked in
theorem ends_foreignBlockItem : Ends (foreignBlockItem r) fun t body => body.Joins t := by
  have block : Ends
      (delimited .brace do
        let attributes ← innerAttributes
        let _ ← untilEnd (foreignMember r)
        return attributes) fun t attributes => attributes = innerPaths t.inBraces :=
    .braces fun _ => .bind fun _ => .pure rfl
  refine .bind fun _ => block.followed (fun _ => inferInstance) fun t _ inner => .pure ?_
  exact ItemBody.joins_of_inner inner fun _ _ same => by cases same; rfl

omit tracked in
theorem ends_moduleItem : Ends (moduleItem r) fun t body => body.Joins t := by
  have block : Ends
      (delimited .brace do
        let attributes ← innerAttributes
        return (attributes, ← untilEnd r.item)) fun t body => body.1 = innerPaths t.inBraces :=
    .braces fun _ => .bind fun _ => .pure rfl
  refine .bind fun _ => .bind fun _ => .bind fun _ => .semicolon? inferInstance ?_ ?_
  · exact fun _ _ => .pure (ItemBody.joins_of_inner rfl fun _ _ same => by cases same; rfl)
  · refine block.followed (fun (_, _) => inferInstance) fun t (_, _) inner => .pure ?_
    exact ItemBody.joins_of_inner inner fun _ _ same => by cases same; rfl

theorem ends_traitBody :
    Ends (traitBody r) fun t attributes => attributes = innerPaths t.inBraces := by
  have block : Ends
      (do
        let _ ← whereClause? r
        delimited .brace do
          let attributes ← innerAttributes
          let _ ← untilEnd (traitMember r)
          return attributes) fun t attributes => attributes = innerPaths t.inBraces :=
    .bind fun _ => .braces fun _ => .bind fun _ => .pure rfl
  refine .bind fun supertraits => ?_
  cases supertraits with
  | true => exact .bind fun _ => block
  | false => exact block

theorem ends_traitItem : Ends (traitItem r) fun t body => body.Joins t := by
  have whole (spelling : String) : Ends
      (do
        let attributes ← traitBody r
        return ItemBody.leaf attributes .trait (some spelling)) fun t body => body.Joins t := by
    refine ends_traitBody.followed (fun _ => inferInstance) fun t _ inner => .pure ?_
    exact ItemBody.joins_of_inner inner fun _ _ same => by cases same; rfl
  refine .bind fun _ => .bind fun marked => .bind fun auto => .bind fun _ => .bind fun spelling =>
    .bind fun _ => ?_
  cases marked <;> cases auto <;> try exact whole spelling
  -- only what is neither marked nor automatic may be an alias
  refine .bind fun equated => ?_
  cases equated with
  | true =>
    refine .of_ensures (.bind fun _ => .pure (ItemBody.joins_of_bare rfl ?_))
    exact fun _ _ same => by cases same; rfl
  | false => exact whole spelling

theorem ends_implementationItem : Ends (implementationItem r) fun t body => body.Joins t := by
  have block : Ends
      (delimited .brace do
        let attributes ← innerAttributes
        return (attributes, ← untilEnd (implementationMember r))) fun t body =>
        body.1 = innerPaths t.inBraces :=
    .braces fun _ => .bind fun _ => .pure rfl
  simp only [implementationItem]
  -- the braces are the last token, however an implementation starts
  repeat' first
    | with_reducible refine block.followed (fun _ => inferInstance) fun t _ inner => ?_
    | with_reducible refine Ends.bind fun _ => ?_
    | split
  all_goals first
    | exact .pure (ItemBody.joins_raw _)
    | exact .pure (ItemBody.joins_of_inner (by assumption) fun _ _ same => by cases same; rfl)

theorem bare_itemOfCall (head : ItemHead) (call : MacroCall) (spelling : Option String)
    (description : Item.Description)
    (told : (itemOfCall head call spelling).describe = some description) :
    description.kind.joinsInner = false := by
  unfold itemOfCall at told
  split at told
  · cases spelling <;> cases told <;> rfl
  · cases told
    rfl

/-- Of what an item has in its braces, its last token tells. -/
theorem ends_itemBody : Ends (itemBody r) fun t body => body.Joins t := by
  refine .bind fun form => ?_
  cases form with
  | function => exact ends_functionItem
  | foreignBlock => exact ends_foreignBlockItem
  | module => exact ends_moduleItem
  | trait => exact ends_traitItem
  | implementation => exact ends_implementationItem
  | call =>
    refine .of_ensures (.bind fun named => .pure (ItemBody.joins_of_bare rfl ?_))
    exact fun head => bare_itemOfCall head named.call named.name
  | _ =>
    -- every way through another form ends in an item without braces of its own, or a raw one
    refine .of_ensures ?_
    simp only [externCrateItem, useItem, staticItem, constItem, unsafeItem, typeAliasItem, dataItem,
      rulesItem]
    repeat' first
      | with_reducible refine Ensures.bind fun _ => ?_
      | with_reducible exact Ensures.refuse
      | split
      | exact Ensures.pure ItemBody.joins_raw
      | exact Ensures.pure (ItemBody.joins_of_bare rfl fun _ _ same => by cases same; rfl)

/-- The attributes of an item that is told to be something show in its tokens. -/
theorem attributes_of_item {i : Item} {taken : List TokenTree} {description : Item.Description}
    (read : item r c = .ok (i, d)) (took : Took taken c d)
    (told : i.describe = some description) :
    i.head.attributes = attributePaths description.kind taken := by
  obtain ⟨_, start, noted, later⟩ := of_bind read
  obtain ⟨⟨⟨attributes, body⟩, extent⟩, _, placed, given⟩ := of_bind later
  obtain ⟨_, _, got, given⟩ := of_bind given
  cases noted
  cases got
  cases given
  obtain ⟨_, mid, outer, bodied⟩ := of_bind (of_placed_ok placed)
  obtain ⟨_, _, bodied, given⟩ := of_bind bodied
  cases given
  obtain ⟨unmarked, front, ahead, paths⟩ := outer_of_outerAttributes outer
  have closes : Closes (fun _ => False) AlikeBodies (itemBody r) (itemBody r) := Closes.itemBody
  obtain ⟨_, tookBody, before, t, rfl, -⟩ := closes.reads bodied
  obtain rfl : taken = front ++ (before ++ [t]) := by
    have whole : c.rest = front ++ mid.rest := ahead
    rw [took.ahead, tookBody.ahead, ← List.append_assoc] at whole
    exact List.append_cancel_right whole
  have own : outerPaths (front ++ (before ++ [t])) = attributes := by
    -- the mark of an attribute shows in the first token
    have first : Look.symbol "#" (before ++ [t]) = false := by
      rw [tookBody.ahead] at unmarked
      cases before with
      | nil => cases t <;> exact unmarked
      | cons u _ => cases u <;> exact unmarked
    exact paths _ first
  have joins : body.Joins t := by
    rcases ends_itemBody _ _ _ bodied with all | ⟨before', t', tokens, joins⟩
    · exact all t
    · rw [tookBody.ahead, List.append_cons before' t', List.append_left_inj] at tokens
      obtain ⟨-, same⟩ := List.append_inj' tokens rfl
      cases same
      exact joins
  obtain ⟨_, plain⟩ := plain_itemBody r _ _ _ bodied
  have described := (plain _).1.symm.trans told
  rw [(plain _).2.1 (by rw [described]; rfl), attributePaths, own, joins _ _ told,
    inClosingBraces, ← List.append_assoc, List.getLast?_concat]
  rfl

end

end MacroExpansion.Grammar
