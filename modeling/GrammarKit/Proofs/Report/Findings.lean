import GrammarKit.Analysis.Validation
import GrammarKit.Proofs.Build.Names
import GrammarKit.Proofs.Precedences
import GrammarKit.Proofs.Productive
import GrammarKit.Proofs.Reachable
import GrammarKit.Proofs.Registers

/-!
# What each check finds

What a check owes is said by derivations and occurrences: which nonterminals have no productions,
occur in no sentential form or derive no text, which tokens stand in no production, and which
productions clash with a token behind them. In a well-formed grammar whose names tell its symbols
apart each check finds what it owes, in the order of the tables, and nothing else.
-/

namespace GrammarKit

set_option autoImplicit false

namespace Grammar

def HasProduction (grammar : Grammar) (symbol : Symbol) : Prop :=
  ∃ production ∈ grammar.productions, production.lhs = symbol

instance (grammar : Grammar) : DecidablePred grammar.HasProduction := fun symbol =>
  inferInstanceAs (Decidable (∃ production ∈ grammar.productions, production.lhs = symbol))

/-- Some production mentions the terminal, or takes its precedence by name. -/
def Uses (grammar : Grammar) (terminal : Symbol) : Prop :=
  ∃ production ∈ grammar.productions,
    terminal ∈ production.rhs ∨ production.precedence = some terminal.name

instance (grammar : Grammar) : DecidablePred grammar.Uses := fun terminal =>
  inferInstanceAs (Decidable (∃ production ∈ grammar.productions,
    terminal ∈ production.rhs ∨ production.precedence = some terminal.name))

/-- Names tell the symbols apart that declarations speak of. -/
structure TellsNames (grammar : Grammar) : Prop where
  terminals_apart : (grammar.terminals.map (·.name)).Nodup
  no_rule : ∀ terminal ∈ grammar.terminals, terminal ≠ grammar.eof →
    ∀ nonterminal ∈ grammar.nonterminals, nonterminal.name ≠ terminal.name
  ranked : ∀ name ∈ grammar.precedences.keys, ∃ terminal ∈ grammar.terminals,
    terminal ≠ grammar.eof ∧ terminal.name = name

end Grammar

open scoped Classical in
/-- The findings that a check owes, in order. -/
noncomputable def Check.owed (grammar : Grammar) : Check → List Diagnostic
  | undefinedSymbols => []
  | emptyRules =>
      (grammar.nonterminals.filter fun symbol => ¬grammar.HasProduction symbol).map .emptyRule
  | unreachableNonterminals =>
      (grammar.nonterminals.filter fun symbol =>
        ¬grammar.Reaches grammar.augmentedStart symbol).map (.unreachable · grammar.start)
  | unproductiveNonterminals =>
      (grammar.nonterminals.filter fun symbol =>
        grammar.HasProduction symbol ∧ ¬grammar.DerivesTokens symbol).map .unproductive
  | unusedTerminals =>
      (grammar.terminals.filter fun terminal =>
        terminal ≠ grammar.eof ∧ ¬grammar.Uses terminal).map .unusedTerminal
  | unusedPrecedences =>
      grammar.precedences.entries.flatMap fun (name, precedence) =>
        (grammar.terminals.filter fun terminal =>
          terminal.name = name ∧ ¬grammar.Uses terminal).map (.unusedPrecedence name precedence)
  | ambiguousNonassoc => grammar.productions.flatMap grammar.clashesOf

namespace Grammar

variable {grammar : Grammar}

section Tables

variable (whole : grammar.WellFormed)

include whole

theorem defines_of_known {symbol : Symbol} (known : grammar.Knows symbol) :
    grammar.defines symbol := by
  unfold defines
  rcases known with terminal | nonterminal
  · rw [if_pos (whole.terminal_kind terminal)]
    obtain ⟨place, inside, rfl⟩ := List.getElem_of_mem terminal
    simp [(numbered_table_item whole.terminals_numbered inside).2, inside]
  · rw [if_neg (by simp [whole.nonterminal_kind nonterminal])]
    obtain ⟨place, inside, rfl⟩ := List.getElem_of_mem nonterminal
    simp [(numbered_table_item whole.nonterminals_numbered inside).2, inside]

theorem no_undefined_symbols : grammar.undefinedSymbols = [] := by
  unfold undefinedSymbols
  apply List.flatMap_eq_nil_iff.2
  intro production member
  rw [List.map_eq_nil_iff, List.filter_eq_nil_iff]
  intro symbol occurs
  have known : grammar.Knows symbol := by
    rcases List.mem_cons.1 occurs with rfl | inside
    · exact Or.inr (whole.heads_known production member)
    · exact whole.bodies_known production member symbol inside
  simp [defines_of_known whole known]

omit whole in
theorem rule_is_empty_eq (symbol : Symbol) :
    (grammar.productions.filter fun production => production.lhs = symbol).isEmpty =
      decide (¬grammar.HasProduction symbol) := by
  rw [Bool.eq_iff_iff]
  simp [HasProduction]

theorem empty_rules_owed : grammar.emptyRules = Check.emptyRules.owed grammar := by
  unfold emptyRules Check.owed
  rw [whole.rules_eq, List.filter_map, List.map_map]
  exact congrArg (List.map _) (List.filter_congr fun symbol _ => rule_is_empty_eq symbol)

theorem unreachable_owed :
    grammar.unreachableNonterminals = .ok (Check.unreachableNonterminals.owed grammar) := by
  obtain ⟨reached, found, exact⟩ := reachable_exact whole
  unfold unreachableNonterminals Check.owed
  rw [found]
  change Except.ok _ = Except.ok _
  congr 2
  apply List.filter_congr
  intro symbol member
  simp [exact symbol member]

theorem unproductive_owed :
    grammar.unproductiveNonterminals = .ok (Check.unproductiveNonterminals.owed grammar) := by
  have each : ∀ symbol ∈ grammar.nonterminals.filter fun symbol =>
      symbol.index ∉ grammar.productive,
      (do return if (← grammar.ruleOf symbol).isEmpty then [] else [Diagnostic.unproductive symbol] :
        Except Fault (List Diagnostic)) =
        .ok (if grammar.HasProduction symbol then [.unproductive symbol] else []) := by
    intro symbol member
    rw [whole.rule_of_nonterminal (List.mem_filter.1 member).1]
    change Except.ok (if List.isEmpty _ then _ else _) = _
    rw [rule_is_empty_eq symbol]
    by_cases headed : grammar.HasProduction symbol <;> simp [headed]
  unfold unproductiveNonterminals Check.owed
  refine (except_map_m_filtered each).trans ?_
  rw [List.filter_filter]
  congr 2
  apply List.filter_congr
  intro symbol member
  rw [Bool.eq_iff_iff]
  simp [mem_productive_iff whole member]

end Tables

namespace TellsNames

variable (names : grammar.TellsNames)

include names

theorem terminal_of_name {left right : Symbol} (leftMember : left ∈ grammar.terminals)
    (rightMember : right ∈ grammar.terminals) (same : left.name = right.name) : left = right :=
  List.inj_on_of_nodup_map names.terminals_apart leftMember rightMember same

theorem terminals_named {terminal : Symbol} (member : terminal ∈ grammar.terminals) :
    (grammar.terminals.filter fun other => other.name = terminal.name) = [terminal] := by
  have once : grammar.terminals.Nodup := names.terminals_apart.of_map
  have same : (grammar.terminals.filter fun other => other.name = terminal.name) =
      grammar.terminals.filter fun other => other = terminal := by
    apply List.filter_congr
    intro other known
    rw [decide_eq_decide]
    constructor
    · exact names.terminal_of_name known member
    · exact congrArg Symbol.name
  rw [same, List.filter_eq, List.count_eq_one_of_mem once member]
  rfl

theorem unused_named {terminal : Symbol} (member : terminal ∈ grammar.terminals) :
    (grammar.terminals.filter fun other => other.name = terminal.name ∧ ¬grammar.Uses other) =
      if grammar.Uses terminal then [] else [terminal] := by
  have narrowed : (grammar.terminals.filter fun other =>
      other.name = terminal.name ∧ ¬grammar.Uses other) =
        (grammar.terminals.filter fun other => other.name = terminal.name).filter fun other =>
          ¬grammar.Uses other := by
    rw [List.filter_filter]
    simp [Bool.and_comm]
  rw [narrowed, names.terminals_named member]
  by_cases used : grammar.Uses terminal <;> simp [used]

theorem symbol_of_name {terminal : Symbol} (member : terminal ∈ grammar.terminals)
    (token : terminal ≠ grammar.eof) : grammar.symbol terminal.name = .ok terminal := by
  have hidden : grammar.nonterminals.reverse.find? (fun known => known.name = terminal.name) =
      none := by
    rw [List.find?_eq_none]
    intro nonterminal among
    simpa using names.no_rule terminal member token nonterminal (List.mem_reverse.1 among)
  have apart : (grammar.terminals.reverse.map (·.name)).Nodup := by
    rw [List.map_reverse]
    exact List.nodup_reverse.2 names.terminals_apart
  unfold symbol
  rw [List.reverse_append, List.find?_append, hidden,
    found_by_name apart (List.mem_reverse.2 member)]
  rfl

variable (whole : grammar.WellFormed)

include whole

theorem eq_of_occurrence {production : Production} (listed : production ∈ grammar.productions)
    {symbol terminal : Symbol} (occurs : symbol ∈ production.rhs) (kind : symbol.isTerminal)
    (member : terminal ∈ grammar.terminals) (same : symbol.name = terminal.name) :
    symbol = terminal :=
  names.terminal_of_name
    (whole.terminal_known (whole.bodies_known production listed symbol occurs) kind) member same

theorem mem_used_names_iff {terminal : Symbol} (member : terminal ∈ grammar.terminals)
    (token : terminal ≠ grammar.eof) :
    terminal.name ∈ grammar.usedNames ↔ grammar.Uses terminal := by
  simp only [usedNames, referencedTokenNames, referencedTokens, SortedSet.mem_insert_all,
    SortedSet.mem_of_list, List.mem_map, List.mem_filter, List.mem_flatMap, List.mem_filterMap,
    decide_eq_true_eq]
  constructor
  · intro used
    rcases used with ⟨symbol, ⟨⟨production, listed, occurs⟩, kind, _⟩, same⟩ | lent
    · have equal := names.eq_of_occurrence whole listed occurs kind member same
      exact ⟨production, listed, Or.inl (equal ▸ occurs)⟩
    · obtain ⟨production, listed, named⟩ := lent
      exact ⟨production, listed, Or.inr named⟩
  · intro used
    obtain ⟨production, listed, occurs | named⟩ := used
    · exact Or.inl ⟨terminal, ⟨⟨production, listed, occurs⟩, whole.terminal_kind member, token⟩, rfl⟩
    · exact Or.inr ⟨production, listed, named⟩

theorem unused_terminals_owed :
    grammar.unusedTerminals = Check.unusedTerminals.owed grammar := by
  change ((grammar.terminals.filter _).filter _).map _ = (List.filter _ _).map _
  rw [List.filter_filter]
  congr 1
  apply List.filter_congr
  intro terminal member
  by_cases token : terminal = grammar.eof
  · simp [token]
  · simp [token, names.mem_used_names_iff whole member token]

omit names in
theorem used_in_eq {production : Production} (listed : production ∈ grammar.productions) :
    (PrecedenceTable.complete grammar).usedIn production =
      .ok (production.precedence.toList ++ ((production.rhs.filter (·.isTerminal)).map fun token =>
        if (grammar.precedenceOf token).isSome then [token.name] else []).flatten) := by
  have each : ∀ token ∈ production.rhs.filter (·.isTerminal),
      (do return if (← (PrecedenceTable.complete grammar).ofToken token).isSome then [token.name]
          else [] : Except Fault (List String)) =
        .ok (if (grammar.precedenceOf token).isSome then [token.name] else []) := by
    intro token member
    obtain ⟨occurs, kind⟩ := List.mem_filter.1 member
    have known := whole.terminal_known (whole.bodies_known production listed token occurs) kind
    rw [PrecedenceTable.of_token_eq whole known]
    rfl
  exact except_bind_eq_ok_iff.2 ⟨_, except_map_m_ok each, rfl⟩

theorem used_precedences_found : ∃ used,
    (PrecedenceTable.complete grammar).usedPrecedences = .ok used ∧
      ∀ terminal ∈ grammar.terminals, (grammar.precedenceOf terminal).isSome →
        (terminal.name ∈ used ↔ grammar.Uses terminal) := by
  refine ⟨_, except_bind_eq_ok_iff.2 ⟨_, except_map_m_ok fun production listed =>
    used_in_eq whole listed, rfl⟩, ?_⟩
  intro terminal member ranked
  rw [SortedSet.mem_of_list, ← List.flatMap_def, List.mem_flatMap]
  constructor
  · intro used
    obtain ⟨production, listed, mentioned⟩ := used
    rcases List.mem_append.1 mentioned with lent | mentioned
    · exact ⟨production, listed, Or.inr (Option.mem_toList.1 lent)⟩
    · rw [← List.flatMap_def] at mentioned
      obtain ⟨token, among, named⟩ := List.mem_flatMap.1 mentioned
      obtain ⟨occurs, kind⟩ := List.mem_filter.1 among
      have same : terminal.name = token.name := by
        split at named
        · exact List.mem_singleton.1 named
        · cases named
      have equal := names.eq_of_occurrence whole listed occurs kind member same.symm
      exact ⟨production, listed, Or.inl (equal ▸ occurs)⟩
  · intro used
    obtain ⟨production, listed, occurs | lent⟩ := used
    · refine ⟨production, listed, List.mem_append_right _ ?_⟩
      rw [← List.flatMap_def]
      have kind := whole.terminal_kind member
      exact List.mem_flatMap.2 ⟨terminal, List.mem_filter.2 ⟨occurs, kind⟩, by simp [ranked]⟩
    · exact ⟨production, listed, List.mem_append_left _ (Option.mem_toList.2 lent)⟩

theorem unused_precedences_owed :
    grammar.unusedPrecedences (PrecedenceTable.complete grammar) =
      .ok (Check.unusedPrecedences.owed grammar) := by
  obtain ⟨used, found, used_iff⟩ := names.used_precedences_found whole
  have entry_token : ∀ entry ∈ grammar.precedences.entries, ∃ terminal ∈ grammar.terminals,
      terminal ≠ grammar.eof ∧ terminal.name = entry.1 ∧
        (grammar.precedenceOf terminal).isSome := by
    intro entry listed
    have key : entry.1 ∈ grammar.precedences.keys := List.mem_map_of_mem listed
    obtain ⟨terminal, member, token, named⟩ := names.ranked entry.1 key
    refine ⟨terminal, member, token, named, ?_⟩
    exact Register.contains_iff.2 (named ▸ key)
  refine except_bind_eq_ok_iff.2 ⟨used, found, ?_⟩
  apply except_map_m_wanted
  · intro entry listed unused
    obtain ⟨terminal, member, token, named, ranked⟩ := entry_token entry listed
    rw [← named, used_iff terminal member ranked] at unused
    refine ⟨.unusedPrecedence entry.1 entry.2 terminal, ?_, ?_⟩
    · change (grammar.symbol entry.1 >>= fun symbol => _) = _
      rw [← named, names.symbol_of_name member token]
      rfl
    · change List.map _ (List.filter _ _) = _
      rw [← named, names.unused_named member, if_neg unused]
      rfl
  · intro entry listed unwanted
    obtain ⟨terminal, member, token, named, ranked⟩ := entry_token entry listed
    rw [← named, used_iff terminal member ranked, not_not] at unwanted
    change List.map _ (List.filter _ _) = _
    rw [← named, names.unused_named member, if_pos unwanted]
    rfl

end TellsNames

theorem checks_owed (whole : grammar.WellFormed) (numbered : grammar.ProductionsNumbered)
    (names : grammar.TellsNames) : ∀ check ∈ Check.structural,
      (check.run {} grammar).outcome = .ok (check.owed grammar) := by
  obtain ⟨follows, followed, exact⟩ := FollowTable.of_grammar_outcome whole
  have table := PrecedenceTable.of_grammar_eq whole
  intro check _
  cases check with
  | undefinedSymbols => exact congrArg Except.ok (no_undefined_symbols whole)
  | emptyRules => exact congrArg Except.ok (empty_rules_owed whole)
  | unreachableNonterminals => exact unreachable_owed whole
  | unproductiveNonterminals => exact unproductive_owed whole
  | unusedTerminals => exact congrArg Except.ok (names.unused_terminals_owed whole)
  | unusedPrecedences =>
      apply noted_bind_eq_ok_iff.2
      exact ⟨_, table, names.unused_precedences_owed whole⟩
  | ambiguousNonassoc =>
      apply noted_bind_eq_ok_iff.2
      refine ⟨_, table, noted_bind_eq_ok_iff.2 ⟨follows, followed, ?_⟩⟩
      exact PrecedenceTable.ambiguities_eq whole exact numbered

end Grammar

end GrammarKit
