import GrammarKit.Lexer.Sync
import GrammarKit.Proofs.Build.ReadBack
import GrammarKit.Proofs.Report.Exact
import GrammarKit.Proofs.Resolution.Lines

/-!
# Tokens shared with a lexer

A lexer and a built grammar agree about the names of tokens. Both differences are told by what
stands in right-hand sides, so neither the order nor the repetition of the lexer's names counts, and
what is rejected follows from the two differences and the policy alone. Names that pass under the
strictest policy are numbered by the grammar, each by a number of its own that leads back to it.

Tokens that only lend a precedence are the one point where a lexer and a validation see things
differently: to the validation they are in use.
-/

namespace GrammarKit

set_option autoImplicit false

namespace Grammar

variable {grammar : Grammar}

/-- A token of this name stands in some right-hand side. The end of the input is no token. -/
def Needs (grammar : Grammar) (name : String) : Prop :=
  ∃ token ∈ grammar.terminals, token ≠ grammar.eof ∧ token.name = name ∧
    ∃ production ∈ grammar.productions, token ∈ production.rhs

/-- Some production takes its precedence from the token of this name. -/
def Borrows (grammar : Grammar) (name : String) : Prop :=
  ∃ production ∈ grammar.productions, production.precedence = some name

instance (grammar : Grammar) : DecidablePred grammar.Needs := fun name =>
  inferInstanceAs (Decidable (∃ token ∈ grammar.terminals, token ≠ grammar.eof ∧
    token.name = name ∧ ∃ production ∈ grammar.productions, token ∈ production.rhs))

instance (grammar : Grammar) : DecidablePred grammar.Borrows := fun name =>
  inferInstanceAs (Decidable (∃ production ∈ grammar.productions,
    production.precedence = some name))

theorem mem_referenced_iff (whole : grammar.WellFormed) {name : String} :
    name ∈ grammar.referencedTokenNames ↔ grammar.Needs name := by
  simp only [referencedTokenNames, referencedTokens, SortedSet.mem_of_list, List.mem_map,
    List.mem_filter, List.mem_flatMap, decide_eq_true_eq]
  constructor
  · rintro ⟨token, ⟨⟨production, listed, occurs⟩, kind, proper⟩, named⟩
    have known := whole.terminal_known (whole.bodies_known production listed token occurs) kind
    exact ⟨token, known, proper, named, production, listed, occurs⟩
  · rintro ⟨token, known, proper, named, production, listed, occurs⟩
    exact ⟨token, ⟨⟨production, listed, occurs⟩, whole.terminal_kind known, proper⟩, named⟩

theorem mem_token_names_iff {name : String} :
    name ∈ grammar.tokenNames ↔
      ∃ token ∈ grammar.terminals, token ≠ grammar.eof ∧ token.name = name := by
  simp [tokenNames, properTerminals, and_assoc]

section Differences

theorem lacking_iff (whole : grammar.WellFormed) {lexerTokens : List String} {name : String} :
    name ∈ (grammar.compareTokens lexerTokens).missingFromLexer ↔
      grammar.Needs name ∧ name ∉ lexerTokens := by
  unfold compareTokens
  rw [SortedSet.mem_without, mem_referenced_iff whole, SortedSet.mem_of_list]

theorem unneeded_iff (whole : grammar.WellFormed) {lexerTokens : List String} {name : String} :
    name ∈ (grammar.compareTokens lexerTokens).missingFromParser ↔
      name ∈ lexerTokens ∧ ¬grammar.Needs name := by
  unfold compareTokens
  rw [SortedSet.mem_without, mem_referenced_iff whole, SortedSet.mem_of_list]

theorem compare_tokens_congr {lexerTokens others : List String}
    (same : ∀ name, name ∈ others ↔ name ∈ lexerTokens) :
    grammar.compareTokens others = grammar.compareTokens lexerTokens := by
  have sets : SortedSet.ofList others = SortedSet.ofList lexerTokens := by
    apply SortedSet.eq_of_same_members
    simpa using same
  unfold compareTokens
  rw [sets]

theorem not_empty_iff {names : NameSet} :
    (!names.toList.isEmpty) = true ↔ ∃ name, name ∈ names := by
  rw [Bool.not_eq_true', List.isEmpty_eq_false_iff_exists_mem]
  rfl

end Differences

section Outcomes

/-- The policy does not put up with a token that the lexer can never produce. -/
def Undefined (grammar : Grammar) (lexerTokens : List String) (policy : SyncPolicy) : Prop :=
  policy.rejectUndefinedInLexer ∧ ∃ name, grammar.Needs name ∧ name ∉ lexerTokens

/-- The policy does not put up with a token that the grammar can never take. -/
def Unneeded (grammar : Grammar) (lexerTokens : List String) (policy : SyncPolicy) : Prop :=
  policy.rejectUnusedInGrammar ∧ ∃ name ∈ lexerTokens, ¬grammar.Needs name

theorem outcome_of_gap (lexerTokens : List String) (policy : SyncPolicy) :
    (grammar.syncTokens lexerTokens policy).outcome =
      match policy.rejectedGap? (grammar.compareTokens lexerTokens) with
      | some gap => .error (.tokensOutOfStep (grammar.compareTokens lexerTokens) gap)
      | none => .ok (grammar.compareTokens lexerTokens) := by
  unfold syncTokens
  cases found : policy.rejectedGap? (grammar.compareTokens lexerTokens) with
  | some gap =>
      simp only [found]
      rfl
  | none =>
      simp only [found]
      split <;> rfl

theorem outcome_cases (whole : grammar.WellFormed) (lexerTokens : List String)
    (policy : SyncPolicy) :
    (grammar.Undefined lexerTokens policy ∧
      (grammar.syncTokens lexerTokens policy).outcome =
        .error (.tokensOutOfStep (grammar.compareTokens lexerTokens) .undefinedInLexer)) ∨
    (¬grammar.Undefined lexerTokens policy ∧ grammar.Unneeded lexerTokens policy ∧
      (grammar.syncTokens lexerTokens policy).outcome =
        .error (.tokensOutOfStep (grammar.compareTokens lexerTokens) .unusedInGrammar)) ∨
    (¬grammar.Undefined lexerTokens policy ∧ ¬grammar.Unneeded lexerTokens policy ∧
      (grammar.syncTokens lexerTokens policy).outcome =
        .ok (grammar.compareTokens lexerTokens)) := by
  have first : (policy.rejectUndefinedInLexer ∧
      !(grammar.compareTokens lexerTokens).missingFromLexer.toList.isEmpty) ↔
        grammar.Undefined lexerTokens policy := by
    simp only [not_empty_iff, lacking_iff whole, Undefined]
  have second : (policy.rejectUnusedInGrammar ∧
      !(grammar.compareTokens lexerTokens).missingFromParser.toList.isEmpty) ↔
        grammar.Unneeded lexerTokens policy := by
    simp only [not_empty_iff, unneeded_iff whole, Unneeded]
  rw [outcome_of_gap, SyncPolicy.rejectedGap?]
  by_cases lacking : grammar.Undefined lexerTokens policy
  · exact Or.inl ⟨lacking, by rw [if_pos (first.2 lacking)]⟩
  · rw [if_neg (first.not.2 lacking)]
    by_cases unneeded : grammar.Unneeded lexerTokens policy
    · exact Or.inr (Or.inl ⟨lacking, unneeded, by rw [if_pos (second.2 unneeded)]⟩)
    · exact Or.inr (Or.inr ⟨lacking, unneeded, by rw [if_neg (second.not.2 unneeded)]⟩)

/-- Both differences, what becomes of them, and what they do not depend on. -/
structure SyncedWith (grammar : Grammar) (lexerTokens : List String) (policy : SyncPolicy)
    (report : TokenReport) : Prop where
  lacking : ∀ name, name ∈ report.missingFromLexer ↔ grammar.Needs name ∧ name ∉ lexerTokens
  unneeded : ∀ name, name ∈ report.missingFromParser ↔ name ∈ lexerTokens ∧ ¬grammar.Needs name
  rejected_first : (grammar.syncTokens lexerTokens policy).outcome =
    .error (.tokensOutOfStep report .undefinedInLexer) ↔ grammar.Undefined lexerTokens policy
  rejected_second : (grammar.syncTokens lexerTokens policy).outcome =
    .error (.tokensOutOfStep report .unusedInGrammar) ↔
      ¬grammar.Undefined lexerTokens policy ∧ grammar.Unneeded lexerTokens policy
  returned : (grammar.syncTokens lexerTokens policy).outcome = .ok report ↔
    ¬grammar.Undefined lexerTokens policy ∧ ¬grammar.Unneeded lexerTokens policy
  unordered : ∀ others, (∀ name, name ∈ others ↔ name ∈ lexerTokens) →
    grammar.syncTokens others policy = grammar.syncTokens lexerTokens policy

theorem synced_with_compared (whole : grammar.WellFormed) (lexerTokens : List String)
    (policy : SyncPolicy) :
    grammar.SyncedWith lexerTokens policy (grammar.compareTokens lexerTokens) := by
  have unordered : ∀ others, (∀ name, name ∈ others ↔ name ∈ lexerTokens) →
      grammar.syncTokens others policy = grammar.syncTokens lexerTokens policy := by
    intro others same
    unfold syncTokens
    rw [compare_tokens_congr same]
  rcases outcome_cases whole lexerTokens policy with
    ⟨lacking, outcome⟩ | ⟨defined, idle, outcome⟩ | ⟨defined, needed, outcome⟩
  · refine ⟨fun _ => lacking_iff whole, fun _ => unneeded_iff whole, ?_, ?_, ?_, unordered⟩
    · simp [lacking, outcome]
    · simp [lacking, outcome]
    · simp [lacking, outcome]
  · refine ⟨fun _ => lacking_iff whole, fun _ => unneeded_iff whole, ?_, ?_, ?_, unordered⟩
    · simp [defined, outcome]
    · simp [defined, idle, outcome]
    · simp [idle, outcome]
  · refine ⟨fun _ => lacking_iff whole, fun _ => unneeded_iff whole, ?_, ?_, ?_, unordered⟩
    · simp [defined, outcome]
    · simp [needed, outcome]
    · simp [defined, needed, outcome]

end Outcomes

section Numbers

/-- The grammar numbers all these names, each one by itself, and not like the end of the input. -/
structure Numbers (grammar : Grammar) (names : List String) : Prop where
  listed : ∀ name ∈ names, name ∈ grammar.tokenIds.keys
  found : ∀ name ∈ names, ∃ id, grammar.tokenIds.find? name = some id ∧ id ≠ grammar.eof.index ∧
    ∃ terminal, grammar.terminal id = .ok terminal ∧ terminal.name = name
  apart : ∀ left ∈ names, ∀ right ∈ names,
    grammar.tokenIds.find? left = grammar.tokenIds.find? right → left = right

theorem token_id_found (tells : grammar.TellsNames) {token : Symbol}
    (member : token ∈ grammar.terminals) (proper : token ≠ grammar.eof) :
    grammar.tokenIds.find? token.name = some token.index := by
  have listed : token ∈ grammar.properTerminals := by simp [properTerminals, member, proper]
  have once : ((grammar.properTerminals.map fun terminal =>
      (terminal.name, terminal.index)).map (·.1)).Nodup := by
    rw [List.map_map]
    exact tells.terminals_apart.sublist (List.filter_sublist.map _)
  apply Register.find_eq_some_iff.2
  unfold tokenIds
  rw [Register.entries_of_pairs once]
  exact List.mem_map_of_mem listed

theorem numbers_of_needed (whole : grammar.WellFormed) (tells : grammar.TellsNames)
    {names : List String} (needed : ∀ name ∈ names, grammar.Needs name) :
    grammar.Numbers names := by
  have found : ∀ name ∈ names, ∃ id, grammar.tokenIds.find? name = some id ∧
      id ≠ grammar.eof.index ∧ ∃ terminal, grammar.terminal id = .ok terminal ∧
        terminal.name = name := by
    intro name among
    obtain ⟨token, member, proper, rfl, _⟩ := needed name among
    refine ⟨token.index, token_id_found tells member proper, ?_, token, ?_, rfl⟩
    · exact fun same => proper (whole.terminal_of_index member grammar.eof_is_terminal same)
    · exact require_eq_ok_iff.2 (item_at_index whole.terminals_numbered member)
  refine ⟨?_, found, ?_⟩
  · intro name among
    obtain ⟨id, entry, _⟩ := found name among
    rw [← Register.contains_iff, Register.contains, entry]
    rfl
  · intro left leftAmong right rightAmong same
    obtain ⟨id, entry, _, terminal, read, rfl⟩ := found left leftAmong
    obtain ⟨other, again, _, second, readAgain, rfl⟩ := found right rightAmong
    rw [entry, again] at same
    rw [Option.some.inj same, readAgain] at read
    exact congrArg Symbol.name (Except.ok.inj read).symm

end Numbers

section Usage

/-- A token of the grammar is needed, only lends its precedence, or is reported as unused. -/
theorem unneeded_token_iff (tells : grammar.TellsNames)
    (lent : ∀ name, grammar.Borrows name → name ∈ grammar.tokenNames) {name : String} :
    name ∈ grammar.tokenNames ∧ ¬grammar.Needs name ↔
      (∃ terminal, .unusedTerminal terminal ∈ grammar.owedReport.diagnostics ∧
        terminal.name = name) ∨ grammar.Borrows name ∧ ¬grammar.Needs name := by
  have reported : ∀ terminal, .unusedTerminal terminal ∈ grammar.owedReport.diagnostics ↔
      terminal ∈ grammar.terminals ∧ terminal ≠ grammar.eof ∧ ¬grammar.Uses terminal := by
    intro terminal
    rw [reported_iff .unusedTerminals (by decide) rfl]
    simp [Check.owed]
  constructor
  · rintro ⟨listed, unneeded⟩
    obtain ⟨token, member, proper, rfl⟩ := mem_token_names_iff.1 listed
    by_cases used : grammar.Uses token
    · obtain ⟨production, among, occurs | borrowed⟩ := used
      · exact absurd ⟨token, member, proper, rfl, production, among, occurs⟩ unneeded
      · exact Or.inr ⟨⟨production, among, borrowed⟩, unneeded⟩
    · exact Or.inl ⟨token, (reported token).2 ⟨member, proper, used⟩, rfl⟩
  · rintro (⟨token, found, rfl⟩ | ⟨borrows, unneeded⟩)
    · obtain ⟨member, proper, unused⟩ := (reported token).1 found
      refine ⟨mem_token_names_iff.2 ⟨token, member, proper, rfl⟩, ?_⟩
      rintro ⟨other, known, _, named, production, among, occurs⟩
      obtain rfl := tells.terminal_of_name known member named
      exact unused ⟨production, among, Or.inl occurs⟩
    · exact ⟨lent name borrows, unneeded⟩

end Usage

end Grammar

namespace Declarations

variable {declarations : Declarations} {variant : Variant} {parts : Parts}

section Tokens

theorem declared_token_proper {token : Symbol}
    (member : token ∈ numberedSymbols .terminal declarations.tokenNames) :
    token ∈ (declarations.grammarOf variant parts).terminals ∧
      token ≠ (declarations.grammarOf variant parts).eof := by
  refine ⟨List.mem_append_left _ member, ?_⟩
  intro last
  rw [last] at member
  exact eof_not_token declarations member

theorem declared_name_listed {name : String} (declared : name ∈ declarations.tokenNames) :
    name ∈ (declarations.grammarOf variant parts).tokenNames := by
  rw [← names_of_numbered .terminal declarations.tokenNames] at declared
  obtain ⟨token, member, named⟩ := List.mem_map.1 declared
  obtain ⟨known, proper⟩ := declared_token_proper member
  exact Grammar.mem_token_names_iff.2 ⟨token, known, proper, named⟩

theorem implicit_clause_borrows_nothing {rule : Option Symbol} {tokens : List Symbol}
    {clause : Clause} (member : clause ∈ implicitClauses rule tokens) :
    clause.precedence = none := by
  cases rule with
  | none => cases member
  | some symbol =>
      rcases List.mem_append.1 member with looped | final
      · obtain ⟨token, _, rfl⟩ := List.mem_map.1 looped
        rfl
      · obtain rfl := List.mem_singleton.1 final
        rfl

end Tokens

namespace Accepted

variable (accepted : declarations.Accepted variant parts)

include accepted

theorem clause_borrows {clause : Clause} (member : clause ∈ parts.clauses) {name : String}
    (borrowed : clause.precedence = some name) : name ∈ declarations.tokenNames := by
  obtain ⟨⟨lhs, alternative⟩, _, made⟩ := except_map_m_mem accepted.clauses clause member
  obtain ⟨symbols, _, made⟩ := except_bind_eq_ok_iff.1 made
  obtain ⟨_, checked, equal⟩ := except_bind_eq_ok_iff.1 made
  cases equal
  change alternative.precedence = some name at borrowed
  rw [borrowed] at checked
  have ranked := (check_precedence_accepts accepted.precedences).answered_iff.1 ⟨_, checked⟩
  exact mem_token_names.2 (List.mem_append_right _ (ranked name rfl))

/-- Only the author of a rule lends precedences, and then from a token with one of its own. -/
theorem borrowed_listed {name : String}
    (borrows : (declarations.grammarOf variant parts).Borrows name) :
    name ∈ (declarations.grammarOf variant parts).tokenNames := by
  obtain ⟨production, member, borrowed⟩ := borrows
  apply declared_name_listed
  rcases List.mem_append.1 member with leading | last
  · have clause : production.clause ∈ declarations.leadingClauses variant parts := by
      rw [← clauses_of_numbered (declarations.leadingClauses variant parts)]
      exact List.mem_map_of_mem leading
    rcases List.mem_append.1 clause with own | implicit
    · exact accepted.clause_borrows own borrowed
    · cases borrowed.symm.trans (implicit_clause_borrows_nothing implicit)
  · obtain rfl := List.mem_singleton.1 last
    cases borrowed

theorem implicit_token_needed {names : List String}
    (declared : declarations.implicitTokens = some names) {name : String} (among : name ∈ names) :
    (declarations.grammarOf variant parts).Needs name := by
  have listed : name ∈ parts.implicitTokens.map (·.name) := by
    rw [accepted.implicit_tokens_listed.same, declared]
    exact among
  obtain ⟨token, present, rfl⟩ := List.mem_map.1 listed
  have offered := accepted.implicitTokens
  have eco : variant = .eco := by
    cases variant with
    | plain =>
        unfold implicitTokenSymbols at offered
        rw [declared] at offered
        cases offered
    | eco => rfl
  have ruled : (declarations.implicitRule? variant).isSome := by
    cases names with
    | nil => cases among
    | cons first rest => exact implicit_rule_iff.2 ⟨eco, first, rest, declared⟩
  obtain ⟨rule, implicit⟩ := Option.isSome_iff_exists.1 ruled
  have clause : (⟨rule, [token, rule], none⟩ : Clause) ∈
      declarations.leadingClauses variant parts := by
    unfold leadingClauses
    rw [implicit]
    exact List.mem_append_right _ (List.mem_append_left _ (List.mem_map_of_mem present))
  rw [← clauses_of_numbered (declarations.leadingClauses variant parts)] at clause
  obtain ⟨production, leading, same⟩ := List.mem_map.1 clause
  have body : production.rhs = [token, rule] := congrArg Clause.rhs same
  obtain ⟨known, proper⟩ := declared_token_proper (accepted.implicit_token_known present)
  exact ⟨token, known, proper, rfl, production, List.mem_append_left _ leading, by simp [body]⟩

end Accepted

/-- Whatever tokens a lexer defines, synchronising a built grammar with it tells both differences
and rejects exactly what the policy forbids. Names that pass under the strictest policy are numbered.
A lexer that is made from the grammar has no use for the tokens that are reported as unused and for
those that only lend a precedence. -/
theorem lexer_tokens_synchronised {grammar : Grammar}
    (built : declarations.build variant = .ok grammar) :
    (∀ (lexerTokens : List String) (policy : SyncPolicy),
      grammar.SyncedWith lexerTokens policy (grammar.compareTokens lexerTokens) ∧
      (policy.rejectUndefinedInLexer → policy.rejectUnusedInGrammar →
        (∃ report, (grammar.syncTokens lexerTokens policy).outcome = .ok report) →
          grammar.Numbers lexerTokens)) ∧
    (∀ names, declarations.implicitTokens = some names → ∀ name ∈ names, grammar.Needs name) ∧
    ∃ report, (grammar.validate {}).outcome = .ok report ∧
      ∀ name, name ∈ (grammar.compareTokens grammar.tokenNames.toList).missingFromParser ↔
        (∃ terminal, .unusedTerminal terminal ∈ report.diagnostics ∧ terminal.name = name) ∨
          grammar.Borrows name ∧ ¬grammar.Needs name := by
  have whole := well_formed_of_build built
  have tells := tells_names_of_build built
  have validated := validate_of_build built
  obtain ⟨parts, accepted, rfl⟩ := build_eq_ok_iff.1 built
  refine ⟨?_, ?_, _, validated, ?_⟩
  · intro lexerTokens policy
    refine ⟨Grammar.synced_with_compared whole lexerTokens policy, ?_⟩
    intro undefinedRejected unneededRejected returned
    apply Grammar.numbers_of_needed whole tells
    intro name among
    by_contra unneeded
    have forbidden : (declarations.grammarOf variant parts).Unneeded lexerTokens policy :=
      ⟨unneededRejected, name, among, unneeded⟩
    obtain ⟨report, answered⟩ := returned
    rcases Grammar.outcome_cases whole lexerTokens policy with
      ⟨_, outcome⟩ | ⟨_, _, outcome⟩ | ⟨_, needed, _⟩
    · cases answered.symm.trans outcome
    · cases answered.symm.trans outcome
    · exact needed forbidden
  · exact fun names declared name among => accepted.implicit_token_needed declared among
  · intro name
    rw [Grammar.unneeded_iff whole, SortedSet.mem_to_list]
    exact Grammar.unneeded_token_iff tells fun name => accepted.borrowed_listed

/-- The sign only lends its precedence, and the implicit token comes twice. -/
theorem signs_synchronised :
    signDeclarations.build .eco = .ok signs ∧ signs.Needs "w" ∧
      (∃ report, (signs.syncTokens ["w", "n", "?", "w", "<", "-"] ⟨true, true⟩).outcome =
        .ok report) ∧
      signs.Numbers ["w", "n", "?", "w", "<", "-"] ∧
      "neg" ∈ (signs.compareTokens signs.tokenNames.toList).missingFromParser := by
  obtain ⟨synced, implicit, report, _, unneeded⟩ := lexer_tokens_synchronised signs_built
  obtain ⟨_, numbers⟩ := synced ["w", "n", "?", "w", "<", "-"] ⟨true, true⟩
  have returned : ∃ report,
      (signs.syncTokens ["w", "n", "?", "w", "<", "-"] ⟨true, true⟩).outcome = .ok report := ⟨_, rfl⟩
  exact ⟨signs_built, implicit ["w"] rfl "w" (by decide), returned, numbers rfl rfl returned,
    (unneeded "neg").2 (Or.inr (by decide))⟩

end Declarations

end GrammarKit
