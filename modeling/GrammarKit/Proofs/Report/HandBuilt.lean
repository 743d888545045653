import GrammarKit.Proofs.Report.Findings

/-!
# Reports on grammars put together by hand

A grammar put together by hand numbers its tables and its productions, but its right-hand sides may
hold any symbols and its precedences may be declared for any names. When a symbol is not the entry
of its table, only the checks by name run and there is a report. Otherwise all checks run, and the
one for unused precedences looks each name up that no production makes use of. The first such name
that no symbol bears ends the validation without a report, and nothing else does.
-/

namespace GrammarKit

set_option autoImplicit false

namespace Grammar

/-- The tables and the productions are numbered by place, the start symbol is an entry, and the head
of each production is a nonterminal whose index names a place. -/
structure HandBuilt (grammar : Grammar) : Prop where
  terminals_numbered : NumberedTable .terminal grammar.terminals
  nonterminals_numbered : NumberedTable .nonterminal grammar.nonterminals
  productions_numbered : grammar.ProductionsNumbered
  start_known : grammar.start ∈ grammar.nonterminals
  heads_placed : ∀ production ∈ grammar.productions,
    production.lhs.isTerminal = false ∧ (grammar.ruleSlot? production.lhs.index).isSome

/-- No symbol bears the name and no production takes its precedence from it. -/
def Unclaimed (grammar : Grammar) (name : String) : Prop :=
  (∀ symbol ∈ grammar.terminals ++ grammar.nonterminals, symbol.name ≠ name) ∧
    ∀ production ∈ grammar.productions, production.precedence ≠ some name

instance (grammar : Grammar) : DecidablePred grammar.Unclaimed := fun name =>
  inferInstanceAs (Decidable ((∀ symbol ∈ grammar.terminals ++ grammar.nonterminals,
    symbol.name ≠ name) ∧ ∀ production ∈ grammar.productions, production.precedence ≠ some name))

/-- The earliest declared precedence whose name nobody claims. -/
def unclaimedName? (grammar : Grammar) : Option String :=
  grammar.precedences.keys.find? fun name => grammar.Unclaimed name

def findUnused (grammar : Grammar) (entry : String × Precedence) : Except Fault Diagnostic := do
  return .unusedPrecedence entry.1 entry.2 (← grammar.symbol entry.1)

variable {grammar : Grammar}

section Undefined

theorem knows_of_defines {symbol : Symbol} (defined : grammar.defines symbol) :
    if symbol.isTerminal then symbol ∈ grammar.terminals else symbol ∈ grammar.nonterminals := by
  unfold defines at defined
  obtain ⟨_, found⟩ := of_decide_eq_true defined
  by_cases kind : symbol.isTerminal
  · rw [if_pos kind] at found ⊢
    exact List.mem_of_getElem? found
  · rw [if_neg kind] at found ⊢
    exact List.mem_of_getElem? found

theorem defines_of_no_undefined (none_undefined : grammar.undefinedSymbols = [])
    {production : Production} (listed : production ∈ grammar.productions) {symbol : Symbol}
    (occurs : symbol ∈ production.lhs :: production.rhs) : grammar.defines symbol := by
  have clean := List.flatMap_eq_nil_iff.1 none_undefined production listed
  rw [List.map_eq_nil_iff, List.filter_eq_nil_iff] at clean
  simpa using clean symbol occurs

/-- A grammar put together by hand is well-formed unless some symbol is undefined. -/
theorem HandBuilt.undefined_symbols_nil_iff (built : grammar.HandBuilt) :
    grammar.undefinedSymbols = [] ↔ grammar.WellFormed := by
  constructor
  · intro none_undefined
    refine ⟨built.terminals_numbered, built.nonterminals_numbered, built.start_known, ?_, ?_⟩
    · intro production listed
      have defined := defines_of_no_undefined none_undefined listed (List.mem_cons_self ..)
      have known := knows_of_defines defined
      rwa [(built.heads_placed production listed).1, if_neg Bool.false_ne_true] at known
    · intro production listed symbol occurs
      have defined := defines_of_no_undefined none_undefined listed (List.mem_cons_of_mem _ occurs)
      have known := knows_of_defines defined
      by_cases kind : symbol.isTerminal
      · exact Or.inl (by rwa [if_pos kind] at known)
      · exact Or.inr (by rwa [if_neg kind] at known)
  · exact no_undefined_symbols

end Undefined

section Names

theorem symbol_of_unborne {name : String}
    (unborne : ∀ symbol ∈ grammar.terminals ++ grammar.nonterminals, symbol.name ≠ name) :
    grammar.symbol name = .error (.unknownKey name) := by
  have missed : (grammar.terminals ++ grammar.nonterminals).reverse.find?
      (fun known => known.name = name) = none := by
    rw [List.find?_eq_none]
    intro symbol among
    simpa using unborne symbol (List.mem_reverse.1 among)
  unfold symbol
  rw [missed]
  rfl

theorem symbol_of_borne {name : String} {bearer : Symbol}
    (known : bearer ∈ grammar.terminals ++ grammar.nonterminals) (named : bearer.name = name) :
    ∃ symbol, grammar.symbol name = .ok symbol := by
  have found : ((grammar.terminals ++ grammar.nonterminals).reverse.find?
      fun known => known.name = name).isSome := by
    rw [List.find?_isSome]
    exact ⟨bearer, List.mem_reverse.2 known, by simpa using named⟩
  obtain ⟨symbol, found⟩ := Option.isSome_iff_exists.1 found
  exact ⟨symbol, require_eq_ok_iff.2 found⟩

/-- The names in use are those that productions take their precedence from, and names of
terminals. -/
theorem used_precedences_named (whole : grammar.WellFormed) : ∃ used,
    (PrecedenceTable.complete grammar).usedPrecedences = .ok used ∧
      (∀ production ∈ grammar.productions, ∀ name ∈ production.precedence, name ∈ used) ∧
      ∀ name ∈ used, (∃ terminal ∈ grammar.terminals, terminal.name = name) ∨
        ∃ production ∈ grammar.productions, production.precedence = some name := by
  refine ⟨_, except_bind_eq_ok_iff.2 ⟨_, except_map_m_ok fun production listed =>
    TellsNames.used_in_eq whole listed, rfl⟩, ?_, ?_⟩
  · intro production listed name lent
    rw [SortedSet.mem_of_list, ← List.flatMap_def, List.mem_flatMap]
    exact ⟨production, listed, List.mem_append_left _ (Option.mem_toList.2 lent)⟩
  · intro name used
    rw [SortedSet.mem_of_list, ← List.flatMap_def, List.mem_flatMap] at used
    obtain ⟨production, listed, mentioned⟩ := used
    rcases List.mem_append.1 mentioned with lent | mentioned
    · exact Or.inr ⟨production, listed, Option.mem_toList.1 lent⟩
    · rw [← List.flatMap_def] at mentioned
      obtain ⟨token, among, named⟩ := List.mem_flatMap.1 mentioned
      obtain ⟨occurs, kind⟩ := List.mem_filter.1 among
      have same : name = token.name := by
        split at named
        · exact List.mem_singleton.1 named
        · cases named
      have known := whole.bodies_known production listed token occurs
      exact Or.inl ⟨token, whole.terminal_known known kind, same.symm⟩

theorem Unclaimed.not_used {used : NameSet}
    (used_claimed : ∀ name ∈ used, (∃ terminal ∈ grammar.terminals, terminal.name = name) ∨
      ∃ production ∈ grammar.productions, production.precedence = some name)
    {name : String} (unclaimed : grammar.Unclaimed name) : name ∉ used := by
  intro member
  rcases used_claimed name member with ⟨terminal, known, named⟩ | ⟨production, listed, lent⟩
  · exact unclaimed.1 terminal (List.mem_append_left _ known) named
  · exact unclaimed.2 production listed lent

theorem find_unused_fails_iff {entry : String × Precedence} :
    (∀ finding, grammar.findUnused entry ≠ .ok finding) ↔
      ∀ symbol ∈ grammar.terminals ++ grammar.nonterminals, symbol.name ≠ entry.1 := by
  constructor
  · intro failed bearer known named
    obtain ⟨symbol, looked_up⟩ := symbol_of_borne known named
    exact failed _ (except_bind_eq_ok_iff.2 ⟨symbol, looked_up, rfl⟩)
  · intro unborne finding found
    obtain ⟨symbol, looked_up, _⟩ := except_bind_eq_ok_iff.1 found
    rw [symbol_of_unborne unborne] at looked_up
    cases looked_up

/-- Names in use are claimed, so the first unclaimed name is also the first among the others. -/
theorem first_unclaimed {used : NameSet}
    (unused : ∀ name, grammar.Unclaimed name → name ∉ used) :
    ((grammar.precedences.entries.filter fun entry => entry.1 ∉ used).find? fun entry =>
      grammar.Unclaimed entry.1).map (·.1) = grammar.unclaimedName? := by
  unfold unclaimedName? Register.keys
  rw [List.find?_filter, List.find?_map]
  congr 2
  funext entry
  by_cases unclaimed : grammar.Unclaimed entry.1
  · simp [unclaimed, unused entry.1 unclaimed]
  · simp [unclaimed]

theorem unused_precedences_cases (whole : grammar.WellFormed) :
    (grammar.unclaimedName? = none ∧
      ∃ found, grammar.unusedPrecedences (PrecedenceTable.complete grammar) = .ok found) ∨
    ∃ name, grammar.unclaimedName? = some name ∧
      grammar.unusedPrecedences (PrecedenceTable.complete grammar) =
        .error (.unknownKey name) := by
  obtain ⟨used, found, lent_used, used_claimed⟩ := used_precedences_named whole
  let unused := grammar.precedences.entries.filter fun entry => entry.1 ∉ used
  have asked : grammar.unusedPrecedences (PrecedenceTable.complete grammar) =
      unused.mapM grammar.findUnused := by
    unfold unusedPrecedences
    rw [found]
    rfl
  have fails_iff : ∀ entry ∈ unused, (decide (grammar.Unclaimed entry.1) = true ↔
      ∀ finding, grammar.findUnused entry ≠ .ok finding) := by
    intro entry among
    have not_used : entry.1 ∉ used := by simpa using (List.mem_filter.1 among).2
    rw [decide_eq_true_iff, find_unused_fails_iff]
    constructor
    · exact fun unclaimed => unclaimed.1
    · intro unborne
      exact ⟨unborne, fun production listed lent =>
        not_used (lent_used production listed entry.1 lent)⟩
  rw [asked, ← first_unclaimed fun name => Unclaimed.not_used used_claimed]
  cases outcome : unused.mapM grammar.findUnused with
  | ok findings =>
      refine Or.inl ⟨?_, findings, rfl⟩
      rw [Option.map_eq_none_iff, List.find?_eq_none]
      intro entry among unclaimed
      obtain ⟨finding, _, answered⟩ := except_map_m_answered outcome entry among
      exact (fails_iff entry among).1 unclaimed finding answered
  | error fault =>
      obtain ⟨entry, earliest, failed⟩ := except_map_m_first outcome fails_iff
      have unclaimed : grammar.Unclaimed entry.1 := by simpa using List.find?_some earliest
      refine Or.inr ⟨entry.1, congrArg (Option.map (·.1)) earliest, ?_⟩
      unfold findUnused at failed
      rw [symbol_of_unborne unclaimed.1] at failed
      cases failed
      rfl

end Names

section Validation

/-- In a well-formed grammar every check has an answer but the one for unused precedences. -/
theorem structural_answers (whole : grammar.WellFormed) (numbered : grammar.ProductionsNumbered)
    (check : Check) (other : check ≠ .unusedPrecedences) :
    ∃ found, (check.run {} grammar).outcome = .ok found := by
  cases check with
  | undefinedSymbols | emptyRules | unusedTerminals => exact ⟨_, rfl⟩
  | unreachableNonterminals => exact ⟨_, unreachable_owed whole⟩
  | unproductiveNonterminals => exact ⟨_, unproductive_owed whole⟩
  | unusedPrecedences => exact absurd rfl other
  | ambiguousNonassoc =>
      obtain ⟨follows, followed, exact⟩ := FollowTable.of_grammar_outcome whole
      exact ⟨_, noted_bind_eq_ok_iff.2 ⟨_, PrecedenceTable.of_grammar_eq whole,
        noted_bind_eq_ok_iff.2 ⟨follows, followed,
          PrecedenceTable.ambiguities_eq whole exact numbered⟩⟩⟩

theorem unused_precedences_run (whole : grammar.WellFormed) :
    (Check.unusedPrecedences.run {} grammar).outcome =
      grammar.unusedPrecedences (PrecedenceTable.complete grammar) :=
  Noted.outcome_bind_ok (PrecedenceTable.of_grammar_eq whole)

def checksRun (grammar : Grammar) : List Check :=
  if grammar.undefinedSymbols.isEmpty then Check.structural else Check.byName

/-- Runs the checks and collects their findings behind the undefined symbols. -/
def conclude (grammar : Grammar) : Noted Report := do
  let found ← grammar.checksRun.mapM (Check.run {} grammar)
  let diagnostics := grammar.undefinedSymbols ++ found.flatten
  diagnostics.forM fun diagnostic => Noted.note (.finding .validation diagnostic)
  return ⟨diagnostics⟩

theorem validate_outcome_eq : (grammar.validate {}).outcome = grammar.conclude.outcome := by
  unfold validate conclude checksRun
  cases clean : grammar.undefinedSymbols.isEmpty with
  | true =>
    simp only [clean]
    rfl
  | false =>
    simp only [clean]
    exact Noted.outcome_bind_ok rfl

theorem conclude_of_answers {found : List (List Diagnostic)}
    (answered : (grammar.checksRun.mapM (Check.run {} grammar)).outcome = .ok found) :
    grammar.conclude.outcome = .ok ⟨grammar.undefinedSymbols ++ found.flatten⟩ :=
  noted_bind_eq_ok_iff.2 ⟨found, answered,
    noted_bind_eq_ok_iff.2 ⟨⟨⟩, noted_for_m_ok fun _ _ => rfl, rfl⟩⟩

theorem conclude_of_failure {fault : Fault}
    (failed : (grammar.checksRun.mapM (Check.run {} grammar)).outcome = .error fault) :
    grammar.conclude.outcome = .error fault :=
  Noted.outcome_bind_error failed

/-- With an undefined symbol the checks by name are all that runs, whatever tables there are. -/
theorem validate_of_undefined (prepared : PreparedTables)
    (undefined : grammar.undefinedSymbols ≠ []) :
    grammar.validate prepared =
      let diagnostics := grammar.undefinedSymbols ++ grammar.emptyRules ++ grammar.unusedTerminals
      ⟨.checksSkipped grammar.undefinedSymbols.length ::
        diagnostics.map (.finding .validation), .ok ⟨diagnostics⟩⟩ := by
  have some_undefined : grammar.undefinedSymbols.isEmpty = false := by simpa using undefined
  have answered : Check.byName.mapM (Check.run prepared grammar) =
      pure [grammar.emptyRules, grammar.unusedTerminals] := rfl
  have joined : grammar.undefinedSymbols ++ [grammar.emptyRules, grammar.unusedTerminals].flatten =
      grammar.undefinedSymbols ++ grammar.emptyRules ++ grammar.unusedTerminals := by
    simp
  unfold validate
  simp only [some_undefined, Bool.not_false, if_true, Bool.false_eq_true, if_false,
    noted_for_m_note]
  rw [answered, pure_bind, joined]
  refine congrArg (Noted.mk · _) ?_
  change [Note.checksSkipped _] ++ (_ ++ []) = _
  rw [List.append_nil]
  rfl

theorem validate_by_name (undefined : grammar.undefinedSymbols ≠ []) :
    (grammar.validate {}).outcome =
      .ok ⟨grammar.undefinedSymbols ++ grammar.emptyRules ++ grammar.unusedTerminals⟩ :=
  congrArg Noted.outcome (validate_of_undefined {} undefined)

theorem validate_structural (whole : grammar.WellFormed) (numbered : grammar.ProductionsNumbered) :
    (grammar.unclaimedName? = none ∧ ∃ report, (grammar.validate {}).outcome = .ok report) ∨
    ∃ name, grammar.unclaimedName? = some name ∧
      (grammar.validate {}).outcome = .error (.unknownKey name) := by
  have checks : grammar.checksRun = Check.structural :=
    if_pos (by simp [no_undefined_symbols whole])
  rw [validate_outcome_eq]
  rcases unused_precedences_cases whole with ⟨claimed, found, answered⟩ | ⟨name, earliest, failed⟩
  · have each : ∀ check ∈ grammar.checksRun,
        ∃ found, (Check.run {} grammar check).outcome = .ok found := by
      intro check _
      by_cases other : check = .unusedPrecedences
      · exact ⟨found, by rw [other, unused_precedences_run whole, answered]⟩
      · exact structural_answers whole numbered check other
    obtain ⟨answers, all_answered⟩ := noted_map_m_total each
    exact Or.inl ⟨claimed, _, conclude_of_answers all_answered⟩
  · refine Or.inr ⟨name, earliest, conclude_of_failure ?_⟩
    have split : Check.structural = [.emptyRules, .unreachableNonterminals,
        .unproductiveNonterminals, .unusedTerminals] ++
          .unusedPrecedences :: [.ambiguousNonassoc] := rfl
    rw [checks, split]
    apply noted_map_m_stops
    · intro check before
      apply structural_answers whole numbered
      rintro rfl
      simp at before
    · rw [unused_precedences_run whole, failed]

end Validation

/-- With undefined symbols there is always a report. Without them, there is one exactly when each
name with a declared precedence is borne by a symbol or lends a production its precedence, and the
first name for which that fails is the fault. -/
theorem validation_of_hand_built (built : grammar.HandBuilt) :
    (¬grammar.WellFormed ∧ (grammar.validate {}).outcome =
      .ok ⟨grammar.undefinedSymbols ++ grammar.emptyRules ++ grammar.unusedTerminals⟩) ∨
    (grammar.WellFormed ∧ grammar.unclaimedName? = none ∧
      ∃ report, (grammar.validate {}).outcome = .ok report) ∨
    (grammar.WellFormed ∧ ∃ name, grammar.unclaimedName? = some name ∧
      (grammar.validate {}).outcome = .error (.unknownKey name)) := by
  by_cases whole : grammar.WellFormed
  · rcases validate_structural whole built.productions_numbered with reported | failed
    · exact Or.inr (Or.inl ⟨whole, reported⟩)
    · exact Or.inr (Or.inr ⟨whole, failed⟩)
  · have undefined : grammar.undefinedSymbols ≠ [] :=
      fun clean => whole (built.undefined_symbols_nil_iff.1 clean)
    exact Or.inl ⟨whole, validate_by_name undefined⟩

/-- One rule for one token, with a precedence declared for a name of no symbol. The given symbols
stand behind the token. -/
def strayPrecedence (behind : List Symbol) : Grammar where
  variant := .plain
  tokens := [⟨.terminal, 0, "a"⟩]
  eof := ⟨.terminal, 1, "$"⟩
  nonterminals := [⟨.nonterminal, 0, "S"⟩, ⟨.nonterminal, 1, "S'"⟩]
  leading := [⟨0, ⟨.nonterminal, 0, "S"⟩, ⟨.terminal, 0, "a"⟩ :: behind, none⟩]
  startProduction :=
    ⟨1, ⟨.nonterminal, 1, "S'"⟩, [⟨.nonterminal, 0, "S"⟩, ⟨.terminal, 1, "$"⟩], none⟩
  start := ⟨.nonterminal, 0, "S"⟩
  implicitRule := none
  precedences := .ofPairs [("x", ⟨1, .left⟩)]
  errorTexts := ∅

theorem stray_precedence_hand_built (behind : List Symbol) :
    (strayPrecedence behind).HandBuilt where
  terminals_numbered := by
    change NumberedTable .terminal [⟨.terminal, 0, "a"⟩, ⟨.terminal, 1, "$"⟩]
    decide
  nonterminals_numbered := by
    change NumberedTable .nonterminal [⟨.nonterminal, 0, "S"⟩, ⟨.nonterminal, 1, "S'"⟩]
    decide
  productions_numbered := by
    intro place inside
    rcases place with _ | _ | place
    · rfl
    · rfl
    · change place + 2 < 2 at inside
      omega
  start_known := by simp [strayPrecedence]
  heads_placed := by simp [strayPrecedence, productions, ruleSlot?, slot?, Symbol.isTerminal]

theorem stray_symbols_reported :
    (strayPrecedence [⟨.nonterminal, 7, "T"⟩]).HandBuilt ∧
      ∃ report, ((strayPrecedence [⟨.nonterminal, 7, "T"⟩]).validate {}).outcome = .ok report ∧
        report.diagnostics.map (·.kind) = [.undefinedSymbol] := by
  have built := stray_precedence_hand_built [⟨.nonterminal, 7, "T"⟩]
  refine ⟨built, ?_⟩
  rcases validation_of_hand_built built with ⟨_, reported⟩ | ⟨whole, _⟩ | ⟨whole, _⟩
  · exact ⟨_, reported, by decide +kernel⟩
  · exact absurd whole (by decide)
  · exact absurd whole (by decide)

/-- All symbols are defined, and there is no report. -/
theorem no_report_on_stray_precedence :
    Grammar.assemble [⟨.terminal, 0, "a"⟩, ⟨.terminal, 1, "$"⟩]
      [⟨.nonterminal, 0, "S"⟩, ⟨.nonterminal, 1, "S'"⟩]
      [⟨0, ⟨.nonterminal, 0, "S"⟩, [⟨.terminal, 0, "a"⟩], none⟩,
        ⟨1, ⟨.nonterminal, 1, "S'"⟩, [⟨.nonterminal, 0, "S"⟩, ⟨.terminal, 1, "$"⟩], none⟩]
      ⟨.nonterminal, 0, "S"⟩ (.ofPairs [("x", ⟨1, .left⟩)]) ∅ = .ok (strayPrecedence []) ∧
    (strayPrecedence []).HandBuilt ∧
    ((strayPrecedence []).validate {}).outcome = .error (.unknownKey "x") :=
  ⟨rfl, stray_precedence_hand_built [], by decide +kernel⟩

end Grammar

end GrammarKit
