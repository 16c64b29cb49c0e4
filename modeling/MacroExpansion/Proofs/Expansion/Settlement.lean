import MacroExpansion.Proofs.Expansion.Bindings

/-!
# What requests to the tree of a file come to

A file that has a tree may be asked for expansions and for names, in any order. The list of results
is that of the invocations one by one, and the same every time; a name has the binding of the first
declaration in its scope, and for want of one that of the first result; every other attempt is told
of by one warning.
-/
namespace MacroExpansion

/-- A file that has a tree has items, and the tree is theirs. -/
theorem SourceTree.ofItems_of_parse {file : String} {source : List Char} {parsed : TracedTree}
    (accepted : parse file source = .ok parsed) :
    ∃ content, Grammar.parseFile (Text.codeOf source) = .ok content ∧
      parsed = ofItems file (Text.stripPreamble source) content := by
  unfold parse at accepted
  cases read : Grammar.parseFile (Text.codeOf source) with
  | ok content =>
    rw [read] at accepted
    cases accepted
    exact ⟨content, rfl, rfl⟩
  | error cause =>
    rw [read] at accepted
    rcases cause with cause | _ <;> cases accepted

/-- What is written is bound with its own location. -/
theorem Placed.origin_of_declared? {p : Placed} {file : String} {code : List Char}
    {attempt : ScopeId × Declaration} (h : p.declared? file code = some attempt) :
    attempt.2.binding.origin = .declared attempt.2.span := by
  obtain ⟨d, declares, rfl⟩ := Option.map_eq_some_iff.mp h
  unfold declaration? at declares
  split at declares
  · obtain ⟨definition, _, rfl⟩ := Option.map_eq_some_iff.mp declares
    rfl
  · obtain ⟨description, _, declares⟩ := Option.bind_eq_some_iff.mp declares
    obtain ⟨slot, _, declares⟩ := Option.bind_eq_some_iff.mp declares
    cases declares
    rfl
  · cases declares

/-- What is expanded is bound with the location of its invocation. -/
theorem RecordedInvocation.origin_of_mem_declarations {r : RecordedInvocation}
    {textual : TextualScopes} {attempt : ScopeId × Declaration}
    (h : attempt ∈ r.declarations textual) :
    attempt.2.binding.origin = .expanded r.invocation.span := by
  obtain ⟨result, _, asked⟩ := List.mem_filterMap.mp h
  obtain ⟨d, declares, rfl⟩ := Option.map_eq_some_iff.mp asked
  obtain ⟨slot, _, rfl⟩ := Option.map_eq_some_iff.mp declares
  rfl

/-- The name of a result is among those that are bound. -/
theorem SourceTree.mem_expansionDeclarations {tree : SourceTree} {result : BoundElement}
    {slot : Slot} (given : result ∈ tree.expansionResults) (named : result.slot? = some slot) :
    ∃ d, (result.context, d) ∈ tree.expansionDeclarations ∧ d.slot = slot := by
  obtain ⟨r, recorded, given⟩ := List.mem_flatMap.mp given
  refine ⟨⟨slot, ⟨result.kind, .expanded r.invocation.span⟩, result.span⟩, ?_, rfl⟩
  refine List.mem_flatMap.mpr ⟨r, recorded, List.mem_filterMap.mpr ⟨result, given, ?_⟩⟩
  rw [BoundElement.declaration?, named]
  rfl

namespace TracedTree

/-- The answers that a new tree gives to requests, `last` being what it is afterwards. -/
structure Answers (parsed : TracedTree) (requests : List Request) (last : TracedTree)
    (answers : List Answer) : Prop where
  complete : answers.length = requests.length
  /-- Every expansion gives what the invocations give one by one. -/
  expansion : ∀ k : Nat, requests[k]? = some Request.expandAll →
    answers[k]? = some (Answer.results (parsed.tree.invocations.flatMap fun r =>
      r.results parsed.tree.textual))
  /-- A name is resolved in the tree as it was made before the first expansion. -/
  resolution : ∀ (k : Nat) scope slot, requests[k]? = some (Request.resolve scope slot) →
    answers[k]? = some (Answer.binding
      ((if .expandAll ∈ requests.take k then last else parsed).tree.scopes.resolve scope slot))
  /-- After the first expansion, another one changes nothing. -/
  again : .expandAll ∈ requests → last.tree.expandAll = .ok ⟨last.tree, []⟩
  unasked : .expandAll ∉ requests → last = parsed

/-- What is bound in a tree, the declarations of the file being `declared` and those of the results
`bound`. -/
structure Settled (parsed last : TracedTree) (declared bound : List (ScopeId × Declaration)) :
    Prop where
  binding : ∀ scope slot, last.tree.scopes.binding? scope slot =
    (firstBinding declared scope slot).or (firstBinding bound scope slot)
  kept : ∀ scope slot binding, parsed.tree.scopes.binding? scope slot = some binding →
    last.tree.scopes.binding? scope slot = some binding
  results : ∀ result ∈ last.tree.results, ∀ slot, result.slot? = some slot →
    (last.tree.scopes.binding? result.context slot).isSome
  warnings : last.events.filterMap TreeEvent.refusal? =
    (repeated [] (declared ++ bound)).map fun a => (a.2.span, ⟨a.2.slot⟩)
  count : (declared ++ bound).length =
    last.tree.scopes.bindingCount + (last.events.filterMap TreeEvent.refusal?).length

variable {t last : TracedTree} {requests : List Request} {answers : List Answer}

theorem answers_of_served (fresh : t.tree.expansions = none)
    (served : t.serveAll requests = .ok (last, answers)) : t.Answers requests last answers where
  complete := length_answers fresh served
  expansion := by
    intro k asked
    have by_then : .expandAll ∈ requests.take (k + 1) := by
      rw [List.take_add_one, asked]
      exact List.mem_append_right _ List.mem_cons_self
    rw [answer_of_served fresh served asked, if_pos by_then, last_of_served fresh served,
      if_pos (List.mem_of_mem_take by_then)]
    rfl
  resolution := by
    intro k scope slot asked
    have before : .expandAll ∈ requests.take (k + 1) ↔ .expandAll ∈ requests.take k := by
      rw [List.take_add_one, asked]
      simp
    rw [answer_of_served fresh served asked]
    simp only [before]
    rfl
  again := by
    intro asked
    rw [last_of_served fresh served, if_pos asked]
    exact SourceTree.expandAll_of_expanded rfl
  unasked := by
    intro never
    rw [last_of_served fresh served, if_neg never]

/-- A tree that has settled the declarations of its file settles the results after them. -/
theorem settled_of_settles {declared bound : List (ScopeId × Declaration)}
    (before : t.Settles declared) (after : last.Settles (declared ++ bound))
    (results : ∀ result ∈ last.tree.results, ∀ slot, result.slot? = some slot →
      ∃ d, (result.context, d) ∈ declared ++ bound ∧ d.slot = slot) :
    t.Settled last declared bound where
  binding := fun scope slot => by rw [after.binding, firstBinding_append]
  kept := by
    intro scope slot binding found
    rw [before.binding] at found
    rw [after.binding, firstBinding_append, found, Option.some_or]
  results := by
    intro result given slot named
    obtain ⟨d, attempt, rfl⟩ := results result given slot named
    rw [after.binding, isSome_firstBinding]
    exact List.any_eq_true.mpr ⟨_, attempt, by simp⟩
  warnings := after.refusals
  count := by rw [after.refusals, List.length_map, after.count]

end TracedTree

/-- The tree of a file has settled the declarations of its outline. -/
theorem SourceTree.settles_ofItems (file : String) (code : List Char) (content : List Item) :
    (ofItems file code content).Settles
      ((Outline.ofFile content).filterMap fun p => p.declared? file code) := by
  have walked := (TracedTree.settles_empty file).run (sound_ofFile file code content)
  rw [List.nil_append, (follows_ofFile file code content).declared] at walked
  rw [ofItems_eq_run]
  exact walked

/-- Whatever is asked of the tree of a file, it settles the results of an expansion after the
declarations of the outline. -/
theorem SourceTree.settled_of_served {file : String} {code : List Char} {content : List Item}
    {requests : List Request} {last : TracedTree} {answers : List Answer}
    (served : (ofItems file code content).serveAll requests = .ok (last, answers)) :
    (ofItems file code content).Settled last
      ((Outline.ofFile content).filterMap fun p => p.declared? file code)
      (if .expandAll ∈ requests then (ofItems file code content).tree.expansionDeclarations
        else []) := by
  have fresh := expansions_ofItems file code content
  have walked := settles_ofItems file code content
  rw [TracedTree.last_of_served fresh served]
  split
  · refine TracedTree.settled_of_settles walked
      (walked.expanded (consistent_ofItems file code content)) ?_
    intro result given slot named
    obtain ⟨d, asked, same⟩ := mem_expansionDeclarations given named
    exact ⟨d, List.mem_append_right _ asked, same⟩
  · refine TracedTree.settled_of_settles walked ?_ ?_
    · rw [List.append_nil]
      exact walked
    · intro result given
      rw [results, fresh] at given
      cases given

/-- What becomes of a file that has a tree. Its declarations carry their own location, and those of
results the location of their invocation. Requests are answered, unless an expansion is asked for
and that of an invocation is broken off on its own; the answers are those of the invocations one by
one, and every slot is settled by the first attempt on it. -/
theorem SourceTree.parsed_tree_settled {file : String} {source : List Char} {parsed : TracedTree}
    (accepted : parse file source = .ok parsed) (requests : List Request) :
    ∃ content, Grammar.parseFile (Text.codeOf source) = .ok content ∧
      let declared := (Outline.ofFile content).filterMap fun p =>
        p.declared? file (Text.stripPreamble source)
      (∀ attempt ∈ declared, attempt.2.binding.origin = .declared attempt.2.span) ∧
      (∀ r ∈ parsed.tree.invocations, ∀ attempt ∈ r.declarations parsed.tree.textual,
        attempt.2.binding.origin = .expanded r.invocation.span) ∧
      ((parsed.serveAll requests = .error .aborted ∧ .expandAll ∈ requests ∧
          ∃ r ∈ parsed.tree.invocations,
            (expandOrNone (parsed.tree.textual.lookup r.position) r.invocation).outcome.1 =
              .error .aborted) ∨
        ∃ last answers, parsed.serveAll requests = .ok (last, answers) ∧
          parsed.Answers requests last answers ∧
          parsed.Settled last declared
            (if .expandAll ∈ requests then parsed.tree.expansionDeclarations else [])) := by
  obtain ⟨content, read, rfl⟩ := ofItems_of_parse accepted
  have fresh := expansions_ofItems file (Text.stripPreamble source) content
  refine ⟨content, read, ?_, fun r _ attempt asked => r.origin_of_mem_declarations asked, ?_⟩
  · intro attempt member
    obtain ⟨p, _, declares⟩ := List.mem_filterMap.mp member
    exact p.origin_of_declared? declares
  · cases served : (ofItems file (Text.stripPreamble source) content).serveAll requests with
    | error cause =>
      obtain ⟨rfl, asked, aborts⟩ := TracedTree.serveAll_error fresh served
      exact Or.inl ⟨rfl, asked, exists_aborted_of_expansionAborts aborts⟩
    | ok made =>
      obtain ⟨last, answers⟩ := made
      exact Or.inr ⟨last, answers, rfl, TracedTree.answers_of_served fresh served,
        settled_of_served served⟩

/-- A static that is declared after an invocation which expands to one of that name. -/
theorem SourceTree.parsed_tree_settled_static :
    ∃ parsed last answers content,
      parse "a.rs" "lazy_static!{static ref A:u8=1;}static A:u8=1;".toList = .ok parsed ∧
      parsed.serveAll [.expandAll, .expandAll] = .ok (last, answers) ∧
      parsed.Answers [.expandAll, .expandAll] last answers ∧
      parsed.Settled last ((Outline.ofFile content).filterMap fun p => p.declared? "a.rs"
        (Text.stripPreamble "lazy_static!{static ref A:u8=1;}static A:u8=1;".toList))
        parsed.tree.expansionDeclarations := by
  have evaluated :
      (parse "a.rs" "lazy_static!{static ref A:u8=1;}static A:u8=1;".toList).toOption.map
        (fun t => t.tree.expansionAborts) = some false := by decide +kernel
  obtain ⟨parsed, found, finished⟩ := Option.map_eq_some_iff.mp evaluated
  have accepted : parse "a.rs" "lazy_static!{static ref A:u8=1;}static A:u8=1;".toList =
      .ok parsed := by
    cases read : parse "a.rs" "lazy_static!{static ref A:u8=1;}static A:u8=1;".toList with
    | error cause =>
      rw [read] at found
      cases found
    | ok t =>
      rw [read] at found
      cases found
      rfl
  obtain ⟨content, _, _, _, broken | ⟨last, answers, served, answered, settled⟩⟩ :=
    parsed_tree_settled accepted [.expandAll, .expandAll]
  · obtain ⟨_, _, r, recorded, aborts⟩ := broken
    have completes := List.any_eq_false.mp finished r recorded
    exact absurd (by rw [RecordedInvocation.aborts, RecordedInvocation.expansion, aborts]) completes
  · exact ⟨parsed, last, answers, content, accepted, served, answered, settled⟩

end MacroExpansion
