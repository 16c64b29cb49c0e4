import MacroExpansion.Proofs.Definition.Shape
import MacroExpansion.Proofs.Grammar.Local
import MacroExpansion.Proofs.Walk.Texts
import MacroExpansion.Tree.Walk

/-!
# Definitions that are read again

A definition is read once in its file, with what stands around it, and again as the text that is
recorded for it. Main statement: the text that is recorded for a definition defines what stands in
the file, unless the definition is a statement of parentheses or brackets with no semicolon, or of
braces with one.
-/
namespace MacroExpansion

open Grammar TokenTree

/-! ## Cases in other places -/

theorem TokenTree.Alike.of_punct {c : Char} {joint : Bool} {extent : Extent} {u : TokenTree}
    (alike : Alike (.punct c joint extent) u) : ∃ extent', u = .punct c joint extent' := by
  cases u with
  | punct c' joint' extent' =>
    cases alike
    exact ⟨extent', rfl⟩
  | _ => cases alike

/-- A case with nothing told of where its tokens stand. -/
def RuleCase.unplaced (c : RuleCase) : RuleCase :=
  ⟨Piece.unplacedAll c.pattern, Piece.unplacedAll c.template⟩

namespace RuleSet

/-- These tokens are written for these cases. -/
inductive Cases : List TokenTree → List RuleCase → Prop where
  | nil : Cases [] []
  | case {d d' : Delimiter} {left right ending rest : List TokenTree}
      {leftPlace equals arrow rightPlace : Extent} {joint : Bool} {pattern : Pattern}
      {template : Template} {cases : List RuleCase}
      (readPattern : Piece.ofTokens .pattern left = .ok pattern)
      (readTemplate : Piece.ofTokens .template right = .ok template)
      (ends : Semicolon ending)
      (closed : ending = [] → ∀ joint place later, rest ≠ .punct ';' joint place :: later)
      (later : Cases rest cases) :
      Cases (.group d left leftPlace :: .punct '=' true equals :: .punct '>' joint arrow ::
        .group d' right rightPlace :: (ending ++ rest)) (⟨pattern, template⟩ :: cases)

/-- What is read as cases is empty, or it starts with what is written for the first case. -/
theorem of_readCases_ok {body : List TokenTree} {cases : List RuleCase}
    (read : readCases body = .ok cases) : body = [] ∧ cases = [] ∨
      ∃ c rest later, cases = c :: later ∧ readCases rest = .ok later ∧
        ∀ cs, Cases rest cs → Cases body (c :: cs) := by
  unfold readCases at read
  split at read
  next =>
    cases read
    exact .inl ⟨rfl, rfl⟩
  next d left place rest =>
    obtain ⟨pattern, madePattern, made⟩ := Attempt.of_bind_ok read
    split at made
    next equals joint arrow d' right place' rest =>
      obtain ⟨template, madeTemplate, ended⟩ := Attempt.of_bind_ok made
      split at ended
      next joint' semicolon rest =>
        obtain ⟨later, others, same⟩ := Attempt.of_bind_ok ended
        cases same
        refine .inr ⟨_, rest, later, rfl, others, fun cs written => ?_⟩
        exact .case madePattern madeTemplate (.inr ⟨joint', semicolon, rfl⟩) (by simp) written
      next other =>
        obtain ⟨later, others, same⟩ := Attempt.of_bind_ok ended
        cases same
        refine .inr ⟨_, rest, later, rfl, others, fun cs written => ?_⟩
        exact .case madePattern madeTemplate (.inl rfl)
          (fun _ joint place later same => other joint place later same) written
    next => cases made
  next => cases read

theorem cases_of_readCases {cases : List RuleCase} {body : List TokenTree}
    (read : readCases body = .ok cases) : Cases body cases := by
  induction cases generalizing body with
  | nil =>
    rcases of_readCases_ok read with ⟨rfl, _⟩ | ⟨_, _, _, other, _⟩
    · exact .nil
    · cases other
  | cons c cases ih =>
    rcases of_readCases_ok read with ⟨_, other⟩ | ⟨_, rest, later, same, read, written⟩
    · cases other
    · cases same
      exact written _ (ih read)

theorem Cases.read {body : List TokenTree} {cases : List RuleCase} (written : Cases body cases) :
    readCases body = .ok cases := by
  induction written with
  | nil => rfl
  | @case _ _ _ _ ending rest _ _ _ _ _ _ _ _ madePattern madeTemplate ends closed _ later =>
    rcases ends with rfl | ⟨joint, place, rfl⟩
    · simp only [List.nil_append, readCases, madePattern, madeTemplate, bind, Except.bind]
      split
      next => exact absurd rfl (closed rfl _ _ _)
      next =>
        rw [later]
        rfl
    · simp only [List.singleton_append, readCases, madePattern, madeTemplate, bind, Except.bind]
      rw [later]
      rfl

/-- Cases are written alike wherever their tokens stand. -/
theorem Cases.moved {body moved : List TokenTree} {cases : List RuleCase}
    (written : Cases body cases) (same : unplacedAll moved = unplacedAll body) :
    ∃ cases', Cases moved cases' ∧ cases'.map RuleCase.unplaced = cases.map RuleCase.unplaced := by
  induction written generalizing moved with
  | nil =>
    obtain rfl := unplacedAll_eq_nil same
    exact ⟨[], .nil, rfl⟩
  | case madePattern madeTemplate ends closed _ ih =>
    obtain ⟨t, moved, rfl, first, same₁⟩ := of_unplacedAll_cons same
    obtain ⟨t', moved, rfl, second, same₂⟩ := of_unplacedAll_cons same₁
    obtain ⟨u, moved, rfl, third, same₃⟩ := of_unplacedAll_cons same₂
    obtain ⟨v, moved, rfl, fourth, same₄⟩ := of_unplacedAll_cons same₃
    obtain ⟨left, _, rfl, sameLeft⟩ := first.of_group
    obtain ⟨_, rfl⟩ := second.of_punct
    obtain ⟨_, rfl⟩ := third.of_punct
    obtain ⟨right, _, rfl, sameRight⟩ := fourth.of_group
    obtain ⟨pattern, madePattern', alikePattern⟩ := Piece.ofTokens_alike sameLeft madePattern
    obtain ⟨template, madeTemplate', alikeTemplate⟩ := Piece.ofTokens_alike sameRight madeTemplate
    have alike : RuleCase.unplaced ⟨pattern, template⟩ = RuleCase.unplaced ⟨_, _⟩ :=
      congrArg₂ RuleCase.mk alikePattern alikeTemplate
    rcases ends with rfl | ⟨joint, place, rfl⟩
    · obtain ⟨cases', written, later⟩ := ih same₄
      refine ⟨_, .case madePattern' madeTemplate' (.inl rfl) (fun _ joint place rest starts => ?_)
        written, congrArg₂ List.cons alike later⟩
      -- a semicolon that the moved tokens went on with would stand in the first ones, too
      rw [starts] at same₄
      obtain ⟨t, rest, whole, alike, _⟩ := of_unplacedAll_cons same₄.symm
      obtain ⟨place', rfl⟩ := alike.of_punct
      exact closed rfl joint place' rest whole
    · obtain ⟨t, moved, rfl, fifth, same₅⟩ := of_unplacedAll_cons same₄
      obtain ⟨place', rfl⟩ := fifth.of_punct
      obtain ⟨cases', written, later⟩ := ih same₅
      exact ⟨_, .case madePattern' madeTemplate' (.inr ⟨joint, place', rfl⟩) (by simp) written,
        congrArg₂ List.cons alike later⟩

end RuleSet

/-! ## Calls in other places -/

/-- What is left of the semicolon behind a call. -/
theorem apartAll_of_ends {ending : List TokenTree} (front : List TokenTree) (d : Delimiter)
    (body : List TokenTree) (extent : Extent) (ends : Semicolon ending) :
    ∃ ending', apartAll (front ++ .group d body extent :: ending) =
        (front ++ [.group d body extent]) ++ ending' ∧
      (ending = [] → ending' = []) ∧
      (ending ≠ [] → ∃ place, ending' = [.punct ';' false place]) := by
  rcases ends with rfl | ⟨joint, place, rfl⟩
  · exact ⟨[], by simp [apartAll, apart], fun _ => rfl, fun nonempty => absurd rfl nonempty⟩
  · have whole : front ++ .group d body extent :: [.punct ';' joint place] =
        (front ++ [.group d body extent]) ++ [.punct ';' joint place] := by simp
    refine ⟨[.punct ';' false place], ?_, fun empty => absurd empty (by simp),
      fun _ => ⟨place, rfl⟩⟩
    rw [whole, apartAll, List.dropLast_concat, List.getLast?_concat]
    rfl

/-- A call that ends as it has to stands in place of an item, if nothing else follows. -/
theorem callItem_of_namedCall {c past : Cursor} {named : NamedCall}
    (call : namedCall c = .ok (named, past))
    (brace : named.call.delimiter = .brace → past.rest = [])
    (other : named.call.delimiter ≠ .brace → ∃ joint place, past.rest = [.punct ';' joint place]) :
    ∃ after, callItem c = .ok (named, after) ∧ after.rest = [] := by
  by_cases braced : named.call.delimiter = .brace
  · have bare : named.call.needsSemicolon = false := by simp [MacroCall.needsSemicolon, braced]
    refine ⟨past, ?_, brace braced⟩
    rw [callItem, bind_ok call, bare]
    rfl
  · have needs : named.call.needsSemicolon = true := by
      simpa [MacroCall.needsSemicolon] using braced
    obtain ⟨joint, place, left⟩ := other braced
    have ended : symbol ";" past = .ok ((), ⟨[], past.displaced, some place⟩) := by
      obtain ⟨_, displaced, last⟩ := past
      cases left
      rfl
    refine ⟨⟨[], past.displaced, some place⟩, ?_, rfl⟩
    rw [callItem, bind_ok call, needs]
    exact bind_ok ended

namespace RuleSet

theorem ofCall_of_readCases {named : NamedCall} {spelling : String} {cases : List RuleCase}
    (definer : named.call.path.isWord MacroPath.definer = true)
    (name : named.name = some spelling) (read : readCases named.call.body = .ok cases) :
    ofCall named = .ok ⟨.ofSpelling spelling, cases⟩ := by
  simp only [ofCall, definer, name, read]
  rfl

theorem parse_of_callItem {source : List Char} {tokens : List TokenTree} {rules : RuleSet}
    {attributes : List String} {mid after : Cursor} {named : NamedCall}
    (scanned : TokenTree.ofText? source = some tokens)
    (early : outerAttributes ⟨tokens, false, none⟩ = .ok (attributes, mid))
    (called : callItem mid = .ok (named, after)) (ended : after.rest = [])
    (defined : ofCall named = .ok rules) : parse source = .ok rules := by
  have whole : parser ⟨tokens, false, none⟩ = .ok (rules, after) := by
    rw [parser, bind_ok early, bind_ok called, defined]
    rfl
  obtain ⟨_, displaced, last⟩ := after
  cases ended
  rw [parse, parseText, scanned]
  change parseAll parser tokens = .ok rules
  rw [parseAll, whole]
  rfl

end RuleSet

section

variable {taken rest ending : List TokenTree} {c : Cursor} {head : ItemHead} {spelling : String}
  {named : NamedCall}

/-- The tokens of a definition end with the group of its call and its semicolon. -/
theorem Grammar.Defines.row (defines : Defines c rest head spelling named ending)
    (ahead : c.rest = taken ++ rest) : ∃ front, taken = front ++
      .group named.call.delimiter named.call.body named.call.group :: ending := by
  obtain ⟨front, whole⟩ := defines.called.ahead
  have together : taken ++ rest = (front ++
      .group named.call.delimiter named.call.body named.call.group :: ending) ++ rest := by
    rw [← ahead, whole]
    simp
  exact ⟨front, List.append_cancel_right together⟩

/-- A text with the tokens of a definition that ends as it has to in place of an item defines the
same. -/
theorem parse_of_defines {own : List Char} {alone : List TokenTree} {cases : List RuleCase}
    (scanned : ofText? own = some alone)
    (same : unplacedAll alone = unplacedAll (apartAll taken)) (ahead : c.rest = taken ++ rest)
    (defines : Defines c rest head spelling named ending) (terminated : Terminated named ending)
    (read : RuleSet.readCases named.call.body = .ok cases) :
    ∃ cases', RuleSet.parse own = .ok ⟨.ofSpelling spelling, cases'⟩ ∧
      cases'.map RuleCase.unplaced = cases.map RuleCase.unplaced := by
  obtain ⟨front, rfl⟩ := defines.row ahead
  obtain ⟨ending', left, nothing, semicolon⟩ := apartAll_of_ends front _ _ _ defines.called.ends
  rw [left, unplacedAll_append, unplacedAll_eq_map alone] at same
  obtain ⟨moved, less, rfl, sameRow, sameLeft⟩ := List.map_eq_append_iff.mp same
  rw [← unplacedAll_eq_map] at sameRow sameLeft
  -- the call is read up to its group in both places, with less behind it in the text of its own
  have meets : Meets less (ending ++ rest) ⟨moved ++ less, false, none⟩ c :=
    ⟨moved, front ++ [.group named.call.delimiter named.call.body named.call.group], rfl,
      by rw [ahead]; simp, sameRow.symm⟩
  obtain ⟨mid, past, named', early, call, behind, sameCall⟩ := defines.called.moved meets
  have brace : named'.call.delimiter = .brace → past.rest = [] := by
    rw [sameCall.alike.call.delimiter]
    intro brace
    obtain rfl := nothing (terminated.mpr brace)
    rw [behind]
    exact unplacedAll_eq_nil sameLeft
  have other : named'.call.delimiter ≠ .brace →
      ∃ joint place, past.rest = [.punct ';' joint place] := by
    rw [sameCall.alike.call.delimiter]
    intro other
    obtain ⟨place, rfl⟩ := semicolon fun empty => other (terminated.mp empty)
    obtain ⟨t, less, rfl, alike, sameLess⟩ := of_unplacedAll_cons sameLeft
    obtain ⟨place', rfl⟩ := alike.of_punct
    obtain rfl := unplacedAll_eq_nil sameLess
    exact ⟨false, place', behind⟩
  obtain ⟨after, called, ended⟩ := callItem_of_namedCall call brace other
  have definer : named'.call.path.isWord MacroPath.definer = true :=
    sameCall.alike.call.path ▸ defines.definer
  have name : named'.name = some spelling := sameCall.alike.name.trans defines.name
  obtain ⟨cases', written, alike⟩ := (RuleSet.cases_of_readCases read).moved sameCall.body
  exact ⟨cases', RuleSet.parse_of_callItem scanned early called ended
    (RuleSet.ofCall_of_readCases definer name written.read), alike⟩

/-- Such a definition does not end with brackets. -/
theorem getLast?_of_terminated {front : List TokenTree} {extent place : Extent}
    {content : List TokenTree} (terminated : Terminated named ending) (ends : Semicolon ending) :
    (front ++ .group named.call.delimiter named.call.body extent :: ending).getLast? ≠
      some (.group .bracket content place) := by
  rcases ends with rfl | ⟨joint, semicolon, rfl⟩
  · rw [terminated.mp rfl]
    simp
  · simp

end

/-! ## Recorded definitions -/

/-- A rule set of a text was read there as a call, with `ending` after it. -/
def CalledAs (code : List Char) (kind : ScopeKind) (head : ItemHead) (spelling : String)
    (named : NamedCall) (ending : List TokenTree) : Prop :=
  ∃ taken pre own c rest, Item.Stands code kind (.ruleSet head spelling) taken pre own ∧
    c.rest = taken ++ rest ∧ Defines c rest head spelling named ending

/-- The text of a definition defines its name with the cases of a call. -/
def MacroDefinition.ReadsAs (d : MacroDefinition) (named : NamedCall) : Prop :=
  ∀ cases, RuleSet.readCases named.call.body = .ok cases →
    ∃ cases', RuleSet.parse d.source.toList = .ok ⟨d.name, cases'⟩ ∧
      cases'.map RuleCase.unplaced = cases.map RuleCase.unplaced

/-- Where the text that is cut is the one that was scanned, each definition that is recorded for a
file, however deep it stands, is read again as what it is there, if it ends as an item does. It does
in place of an item. A statement may be of parentheses or brackets with no semicolon, or of braces
with one. -/
theorem definitions_read_again {source : List Char} {items : List Item}
    (same : Text.stripPreamble source = Text.codeOf source)
    (parsed : parseFile (Text.codeOf source) = .ok items) :
    ∀ i ∈ items, ∀ kind head spelling, Item.Holds .module i kind (.ruleSet head spelling) →
      ∀ file, ∃ d named ending,
        head.definition? file (Text.stripPreamble source) spelling = some d ∧
        CalledAs (Text.stripPreamble source) kind head spelling named ending ∧
        (kind = .module → Terminated named ending) ∧
        (Terminated named ending → d.ReadsAs named) := by
  rw [same]
  intro i member kind head spelling holds file
  obtain ⟨taken, pre, own, stands⟩ := Item.Stands.of_parseFile parsed member holds
  have text := stands.textIn?
  obtain ⟨c, rest, named, ending, ahead, defines, terminated⟩ := stands.read.defines
  have placed : (Item.ruleSet head spelling).head.displaced = false := defines.placed
  rw [placed] at text
  refine ⟨⟨.ofSpelling spelling, String.ofList own, head.extent.spanIn file⟩, named, ending, ?_,
    ⟨taken, pre, own, c, rest, stands, ahead, defines⟩, terminated, fun ends cases read => ?_⟩
  · exact congrArg (Option.map _) text
  · obtain ⟨front, rfl⟩ := defines.row ahead
    obtain ⟨alone, scanned, moved⟩ := stands.alone fun content place =>
      getLast?_of_terminated ends defines.called.ends
    rw [String.toList_ofList]
    exact parse_of_defines scanned moved ahead defines ends read

/-- In a file with a definition in place of an item, and one of parentheses in a body. -/
theorem definitions_read_again_nested :
    let source := ("macro_rules! m \x7b ($($i:item)*) => ($($i)*) \x7d " ++
      "fn f() \x7b macro_rules! n (($i:item) => ()); \x7d").toList
    Text.stripPreamble source = Text.codeOf source ∧
      ∃ items, parseFile (Text.codeOf source) = .ok items ∧
        ∀ i ∈ items, ∀ kind head spelling, Item.Holds .module i kind (.ruleSet head spelling) →
          ∀ file, ∃ d named ending,
            head.definition? file (Text.stripPreamble source) spelling = some d ∧
            CalledAs (Text.stripPreamble source) kind head spelling named ending ∧
            (kind = .module → Terminated named ending) ∧
            (Terminated named ending → d.ReadsAs named) := by
  intro source
  have same : Text.stripPreamble source = Text.codeOf source := rfl
  have given : (parseFile (Text.codeOf source)).toOption.isSome := by decide +kernel
  obtain ⟨items, parsed⟩ := Option.isSome_iff_exists.mp given
  have parsed := Attempt.of_toOption parsed
  exact ⟨same, items, parsed, definitions_read_again same parsed⟩

/-- The definition of `n` that is `written` ahead of a call of it in a body is recorded as it is
written there, which defines nothing. What is `mended` does define it. -/
def RecordedUnread (written mended : String) : Prop :=
  ∃ t d, SourceTree.parse "lib.rs"
      ("fn f() \x7b " ++ written ++ " n!\x7b struct A; \x7d \x7d").toList = .ok t ∧
    t.tree.textual.lookup 4 (.ofSpelling "n") = some d ∧ d.source = written ∧
    (∀ rules, RuleSet.parse d.source.toList ≠ .ok rules) ∧
    ∃ rules, RuleSet.parse mended.toList = .ok rules ∧ rules.name = d.name

theorem recordedUnread_of_checked {written mended : String}
    (checked : (SourceTree.parse "lib.rs"
        ("fn f() \x7b " ++ written ++ " n!\x7b struct A; \x7d \x7d").toList).toOption.bind (fun t =>
      (t.tree.textual.lookup 4 (.ofSpelling "n")).filter fun d =>
        d.source == written && ((RuleSet.parse d.source.toList).toOption.isNone &&
          (RuleSet.parse mended.toList).toOption.any (·.name == d.name))) ≠ none) :
    RecordedUnread written mended := by
  obtain ⟨d, checked⟩ := Option.ne_none_iff_exists'.mp checked
  obtain ⟨t, made, found⟩ := Option.bind_eq_some_iff.mp checked
  obtain ⟨seen, held⟩ := Option.filter_eq_some_iff.mp found
  obtain ⟨recorded, read⟩ := Bool.and_eq_true_iff.mp held
  obtain ⟨unread, ended⟩ := Bool.and_eq_true_iff.mp read
  obtain ⟨rules, parsed, name⟩ := (Option.any_eq_true _ _).mp ended
  refine ⟨t, d, Attempt.of_toOption made, seen, eq_of_beq recorded, fun rules parsed => ?_, rules,
    Attempt.of_toOption parsed, eq_of_beq name⟩
  rw [parsed] at unread
  cases unread

/-- In a body, a statement of braces with a semicolon is recorded with it, and one of parentheses
with no semicolon without one. Neither text defines anything. -/
theorem misended_statements_unread :
    RecordedUnread "macro_rules! n \x7b ($($i:item)*) => ($($i)*) \x7d;"
        "macro_rules! n \x7b ($($i:item)*) => ($($i)*) \x7d" ∧
      RecordedUnread "macro_rules! n (($($i:item)*) => ($($i)*))"
        "macro_rules! n (($($i:item)*) => ($($i)*));" := by
  constructor
  · exact recordedUnread_of_checked (by decide +kernel)
  · exact recordedUnread_of_checked (by decide +kernel)

end MacroExpansion
