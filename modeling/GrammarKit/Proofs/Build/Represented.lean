import GrammarKit.Proofs.Build.FreshNames
import GrammarKit.Proofs.Build.Names
import GrammarKit.Proofs.Build.WellFormed
import GrammarKit.Proofs.Rules

/-!
# How a built grammar represents its declarations

Every table is numbered by place and every symbol in a production is the entry of its table. Names
tell symbols of a table apart, also the two that no author wrote. The end of the input and the
augmented start stand in the last production and nowhere else, and the rules divide the productions
among the nonterminals.
-/

namespace GrammarKit

set_option autoImplicit false

namespace Grammar

structure Represents (grammar : Grammar) (declarations : Declarations) : Prop where
  terminals_numbered : NumberedTable .terminal grammar.terminals
  nonterminals_numbered : NumberedTable .nonterminal grammar.nonterminals
  productions_numbered : grammar.ProductionsNumbered
  /-- Tokens of precedence lines come behind the declared ones. -/
  terminal_names : ∃ names,
    ListsOnce (declarations.tokens ++ declarations.precedenceLines.flatMap (·.tokens)) names ∧
      grammar.terminals.map (·.name) = names ++ [endOfInput]
  eof_last : grammar.terminals.getLast? = some grammar.eof
  eof_name_unique : ∀ terminal ∈ grammar.terminals,
    terminal.name = endOfInput → terminal = grammar.eof
  nonterminal_names_distinct : (grammar.nonterminals.map (·.name)).Nodup
  names_apart : ∀ nonterminal ∈ grammar.nonterminals, ∀ terminal ∈ grammar.terminals,
    terminal ≠ grammar.eof → nonterminal.name ≠ terminal.name
  heads_listed : ∀ production ∈ grammar.productions,
    production.lhs.isTerminal = false ∧ grammar.Listed production.lhs
  bodies_listed : ∀ production ∈ grammar.productions, ∀ symbol ∈ production.rhs,
    grammar.Listed symbol
  eof_once : (grammar.productions.flatMap (·.rhs)).count grammar.eof = 1
  start_production_last : grammar.productions.getLast? = some grammar.startProduction
  start_production_rhs : grammar.startProduction.rhs =
    grammar.implicitRule.toList ++ [grammar.start, grammar.eof]
  augmented_last : grammar.nonterminals.getLast? = some grammar.augmentedStart
  augmented_head : ∀ production ∈ grammar.productions,
    production.lhs = grammar.augmentedStart ↔ production = grammar.startProduction
  augmented_unused : ∀ production ∈ grammar.productions,
    grammar.augmentedStart ∉ production.rhs
  rules_sorted : ∀ nonterminal ∈ grammar.nonterminals, grammar.ruleOf nonterminal =
    .ok ⟨nonterminal, grammar.productions.filter fun production => production.lhs = nonterminal⟩
  rules_partition : (grammar.rules.flatMap (·.productions)).Perm grammar.productions

end Grammar

theorem names_of_numbered (kind : SymbolKind) (names : List String) :
    (numberedSymbols kind names).map (·.name) = names := by
  simp [numberedSymbols, Function.comp_def]

theorem numbered_production_at (clauses : List Clause) (place : Nat)
    (inside : place < (numberedProductions clauses).length) :
    (numberedProductions clauses)[place].index = place := by
  simp [numberedProductions]

namespace Declarations

variable {declarations : Declarations} {variant : Variant} {parts : Parts}

namespace Accepted

variable (accepted : declarations.Accepted variant parts)

include accepted

theorem rule_names_nodup : declarations.ruleNames.Nodup := by
  have checked := accepted.rules
  unfold checkRules at checked
  split at checked
  · cases checked
  · split at checked
    · cases checked
    · rename_i unrepeated
      exact (repeated_none_iff.1 unrepeated).1

theorem token_name_allowed {name : String} (member : name ∈ declarations.tokenNames) :
    name ≠ endOfInput ∧ name ∉ declarations.ruleNames := by
  have checked := except_for_m_ok accepted.tokens name member
  unfold checkToken at checked
  split at checked
  · cases checked
  · split at checked
    · cases checked
    · exact ⟨‹_›, ‹_›⟩

end Accepted

theorem implicit_rule_eq {symbol : Symbol}
    (implicit : declarations.implicitRule? variant = some symbol) :
    symbol = ⟨.nonterminal, declarations.rules.length,
      freshName (declarations.ruleNames ++ declarations.tokenNames) implicitRuleBase⟩ := by
  unfold implicitRule? at implicit
  split at implicit
  · exact (Option.some.inj implicit).symm
  · cases implicit

theorem implicit_rule_name {symbol : Symbol}
    (implicit : declarations.implicitRule? variant = some symbol) :
    symbol.name ∉ declarations.ruleNames ∧ symbol.name ∉ declarations.tokenNames := by
  obtain rfl := implicit_rule_eq implicit
  have fresh := fresh_name_not_taken (declarations.ruleNames ++ declarations.tokenNames)
    implicitRuleBase
  simpa using fresh

theorem augmented_name (declarations : Declarations) (variant : Variant) (parts : Parts) :
    (declarations.augmentedSymbol variant parts).name ∉ declarations.ruleNames ∧
      (declarations.augmentedSymbol variant parts).name ∉ declarations.tokenNames ∧
      ∀ symbol, declarations.implicitRule? variant = some symbol →
        (declarations.augmentedSymbol variant parts).name ≠ symbol.name := by
  have fresh := fresh_name_not_taken (declarations.ruleNames ++ declarations.tokenNames ++
    (declarations.implicitRule? variant).toList.map (·.name)) (parts.start.name ++ "'")
  change (declarations.augmentedSymbol variant parts).name ∉ _ at fresh
  simp only [List.mem_append, not_or] at fresh
  refine ⟨fresh.1.1, fresh.1.2, ?_⟩
  intro symbol implicit same
  apply fresh.2
  rw [implicit, same]
  simp

theorem nonterminal_names (declarations : Declarations) (variant : Variant) (parts : Parts) :
    (declarations.grammarOf variant parts).nonterminals.map (·.name) =
      declarations.ruleNames ++ (declarations.implicitRule? variant).toList.map (·.name) ++
        [(declarations.augmentedSymbol variant parts).name] := by
  simp [grammarOf, ruleSymbols, names_of_numbered]

theorem terminal_names (declarations : Declarations) (variant : Variant) (parts : Parts) :
    (declarations.grammarOf variant parts).terminals.map (·.name) =
      declarations.tokenNames ++ [endOfInput] := by
  simp [grammarOf, Grammar.terminals, names_of_numbered, eofSymbol]

theorem productions_numbered (declarations : Declarations) (variant : Variant) (parts : Parts) :
    (declarations.grammarOf variant parts).ProductionsNumbered := by
  intro place inside
  unfold Grammar.productions at inside ⊢
  by_cases leading : place < (declarations.grammarOf variant parts).leading.length
  · rw [List.getElem_append_left leading]
    exact numbered_production_at _ place leading
  · have last : place = (declarations.grammarOf variant parts).leading.length := by
      rw [List.length_append, List.length_singleton] at inside
      omega
    rw [List.getElem_append_right (Nat.le_of_not_lt leading), List.getElem_singleton]
    rw [last]
    rfl

theorem eof_not_token (declarations : Declarations) :
    declarations.eofSymbol ∉ numberedSymbols .terminal declarations.tokenNames := by
  have numbered : NumberedTable .terminal
      (numberedSymbols .terminal declarations.tokenNames ++ [declarations.eofSymbol]) :=
    (numbered_symbols_numbered .terminal declarations.tokenNames).append_one rfl rfl
  intro token
  exact (List.nodup_append.1 numbered.nodup).2.2 _ token _ (List.mem_singleton_self _) rfl

theorem augmented_not_earlier (declarations : Declarations) (variant : Variant) (parts : Parts) :
    declarations.augmentedSymbol variant parts ∉
      declarations.ruleSymbols ++ (declarations.implicitRule? variant).toList := by
  have apart := (grammar_nonterminals_numbered declarations variant parts).nodup
  intro earlier
  exact (List.nodup_append.1 apart).2.2 _ earlier _ (List.mem_singleton_self _) rfl

theorem offered_nonterminal {symbol : Symbol}
    (offered : symbol ∈ declarations.ruleSymbols ∨
      declarations.implicitRule? variant = some symbol) :
    symbol ∈ (declarations.grammarOf variant parts).nonterminals := by
  rcases offered with rule | implicit
  · exact List.mem_append_left _ (List.mem_append_left _ rule)
  · exact List.mem_append_left _ (List.mem_append_right _ (Option.mem_toList.2 implicit))

namespace Accepted

variable (accepted : declarations.Accepted variant parts)

include accepted

theorem nonterminal_names_nodup :
    ((declarations.grammarOf variant parts).nonterminals.map (·.name)).Nodup := by
  rcases augmented_name declarations variant parts with ⟨notRule, _, notImplicit⟩
  rw [nonterminal_names]
  apply List.nodup_append.2
  refine ⟨?_, by simp, ?_⟩
  · apply List.nodup_append.2
    refine ⟨accepted.rule_names_nodup, ?_, ?_⟩
    · cases declarations.implicitRule? variant <;> simp
    · intro name rule other implicit equal
      obtain ⟨symbol, found, rfl⟩ := List.mem_map.1 implicit
      exact (implicit_rule_name (Option.mem_toList.1 found)).1 (equal ▸ rule)
  · intro name earlier other last equal
    obtain rfl := List.mem_singleton.1 last
    rcases List.mem_append.1 earlier with rule | implicit
    · exact notRule (equal ▸ rule)
    · obtain ⟨symbol, found, same⟩ := List.mem_map.1 implicit
      exact notImplicit symbol (Option.mem_toList.1 found) (equal.symm.trans same.symm)

theorem nonterminal_name_not_token {nonterminal : Symbol}
    (member : nonterminal ∈ (declarations.grammarOf variant parts).nonterminals) :
    nonterminal.name ∉ declarations.tokenNames := by
  have named := List.mem_map_of_mem (f := fun symbol : Symbol => symbol.name) member
  rw [nonterminal_names] at named
  intro token
  rcases List.mem_append.1 named with earlier | last
  · rcases List.mem_append.1 earlier with rule | implicit
    · exact (accepted.token_name_allowed token).2 rule
    · obtain ⟨symbol, found, same⟩ := List.mem_map.1 implicit
      exact (implicit_rule_name (Option.mem_toList.1 found)).2 (same ▸ token)
  · exact (augmented_name declarations variant parts).2.1 (List.mem_singleton.1 last ▸ token)

theorem leading_production_known {production : Production}
    (member : production ∈ (declarations.grammarOf variant parts).leading) :
    (production.lhs ∈ declarations.ruleSymbols ∨
      declarations.implicitRule? variant = some production.lhs) ∧
      ∀ symbol ∈ production.rhs, (declarations.scope variant parts.precedences).Offers symbol := by
  obtain ⟨clause, among, head, body⟩ := numbered_production_mem member
  rw [head, body]
  exact accepted.leading_clause_known among

/-- No production but the last one mentions the end of the input or the augmented start. -/
theorem leading_production_apart {production : Production}
    (member : production ∈ (declarations.grammarOf variant parts).leading) :
    declarations.eofSymbol ∉ production.rhs ∧
      declarations.augmentedSymbol variant parts ∉ production.lhs :: production.rhs := by
  rcases accepted.leading_production_known member with ⟨head, body⟩
  have whole := accepted.well_formed
  have kinds : ∀ symbol, symbol ∈ declarations.ruleSymbols ∨
      declarations.implicitRule? variant = some symbol → symbol.isTerminal = false :=
    fun symbol offered => whole.nonterminal_kind (offered_nonterminal offered)
  have notEarlier : ¬ (declarations.augmentedSymbol variant parts ∈ declarations.ruleSymbols ∨
      declarations.implicitRule? variant = some (declarations.augmentedSymbol variant parts)) := by
    intro earlier
    apply augmented_not_earlier declarations variant parts
    rw [List.mem_append, Option.mem_toList]
    exact earlier
  constructor
  · intro occurs
    rcases body _ occurs with rule | token | implicit
    · cases kinds _ (Or.inl rule)
    · exact eof_not_token declarations token
    · cases kinds _ (Or.inr implicit)
  · intro occurs
    rcases List.mem_cons.1 occurs with same | occurs
    · exact notEarlier (same ▸ head)
    · rcases body _ occurs with rule | token | implicit
      · exact notEarlier (Or.inl rule)
      · cases whole.terminal_kind (List.mem_append_left _ token)
      · exact notEarlier (Or.inr implicit)

theorem eof_name_unique {terminal : Symbol}
    (member : terminal ∈ (declarations.grammarOf variant parts).terminals)
    (named : terminal.name = endOfInput) : terminal = declarations.eofSymbol := by
  rcases List.mem_append.1 member with token | last
  · have listed : terminal.name ∈ declarations.tokenNames := by
      rw [← names_of_numbered .terminal declarations.tokenNames]
      exact List.mem_map_of_mem token
    exact absurd named (accepted.token_name_allowed listed).1
  · exact List.mem_singleton.1 last

theorem eof_not_in_front :
    declarations.eofSymbol ∉ (declarations.implicitRule? variant).toList ++ [parts.start] := by
  intro front
  have whole := accepted.well_formed
  rcases List.mem_append.1 front with implicit | start
  · cases whole.nonterminal_kind (offered_nonterminal (Or.inr (Option.mem_toList.1 implicit)))
  · have rule := List.mem_singleton.1 start ▸ accepted.start_known
    cases whole.nonterminal_kind (offered_nonterminal (Or.inl rule))

theorem eof_occurs_once :
    ((declarations.grammarOf variant parts).productions.flatMap (·.rhs)).count
      declarations.eofSymbol = 1 := by
  have none_earlier : ((declarations.grammarOf variant parts).leading.flatMap (·.rhs)).count
      declarations.eofSymbol = 0 := by
    apply List.count_eq_zero_of_not_mem
    intro occurs
    obtain ⟨production, member, inside⟩ := List.mem_flatMap.1 occurs
    exact (accepted.leading_production_apart member).1 inside
  have last : (declarations.grammarOf variant parts).startProduction.rhs =
      ((declarations.implicitRule? variant).toList ++ [parts.start]) ++
        [declarations.eofSymbol] := by
    simp [grammarOf]
  rw [Grammar.productions, List.flatMap_append, List.count_append, none_earlier,
    List.flatMap_singleton, last, List.count_append,
    List.count_eq_zero_of_not_mem accepted.eof_not_in_front,
    List.count_singleton_self]

theorem augmented_head_iff {production : Production}
    (member : production ∈ (declarations.grammarOf variant parts).productions) :
    production.lhs = declarations.augmentedSymbol variant parts ↔
      production = (declarations.grammarOf variant parts).startProduction := by
  constructor
  · intro head
    rcases List.mem_append.1 member with leading | last
    · have apart := (accepted.leading_production_apart leading).2
      exact absurd (head ▸ List.mem_cons_self) apart
    · exact List.mem_singleton.1 last
  · intro same
    rw [same]
    rfl

theorem augmented_in_no_body {production : Production}
    (member : production ∈ (declarations.grammarOf variant parts).productions) :
    declarations.augmentedSymbol variant parts ∉ production.rhs := by
  intro occurs
  rcases List.mem_append.1 member with leading | last
  · exact (accepted.leading_production_apart leading).2 (List.mem_cons_of_mem _ occurs)
  · rw [List.mem_singleton.1 last] at occurs
    rcases List.mem_append.1 occurs with implicit | occurs
    · exact augmented_not_earlier declarations variant parts (List.mem_append_right _ implicit)
    · rcases List.mem_cons.1 occurs with start | eof
      · apply augmented_not_earlier declarations variant parts
        exact List.mem_append_left _ (start ▸ accepted.start_known)
      · cases congrArg Symbol.kind (List.mem_singleton.1 eof)

theorem represents : (declarations.grammarOf variant parts).Represents declarations where
  terminals_numbered := grammar_terminals_numbered declarations variant parts
  nonterminals_numbered := grammar_nonterminals_numbered declarations variant parts
  productions_numbered := productions_numbered declarations variant parts
  terminal_names :=
    ⟨declarations.tokenNames, distinct_lists_once _, terminal_names declarations variant parts⟩
  eof_last := by simp [Grammar.terminals]
  eof_name_unique := fun _ member named => accepted.eof_name_unique member named
  nonterminal_names_distinct := accepted.nonterminal_names_nodup
  names_apart := by
    intro nonterminal member terminal among differs same
    rcases List.mem_append.1 among with token | last
    · apply accepted.nonterminal_name_not_token member
      rw [same, ← names_of_numbered .terminal declarations.tokenNames]
      exact List.mem_map_of_mem token
    · exact differs (List.mem_singleton.1 last)
  heads_listed := by
    intro production member
    have head := accepted.well_formed.heads_known production member
    exact ⟨accepted.well_formed.nonterminal_kind head, accepted.well_formed.listed (Or.inr head)⟩
  bodies_listed := fun production member symbol occurs =>
    accepted.well_formed.listed (accepted.well_formed.bodies_known production member symbol occurs)
  eof_once := accepted.eof_occurs_once
  start_production_last := by simp [Grammar.productions]
  start_production_rhs := rfl
  augmented_last := by simp [grammarOf, Grammar.augmentedStart]
  augmented_head := fun _ member => accepted.augmented_head_iff member
  augmented_unused := fun _ member => accepted.augmented_in_no_body member
  rules_sorted := fun _ member => accepted.well_formed.rule_of_nonterminal member
  rules_partition := accepted.well_formed.rules_partition

end Accepted

theorem productions_numbered_of_build {grammar : Grammar}
    (built : declarations.build variant = .ok grammar) : grammar.ProductionsNumbered := by
  obtain ⟨parts, _, rfl⟩ := build_eq_ok_iff.1 built
  exact productions_numbered declarations variant parts

theorem terminal_names_distinct_of_build {grammar : Grammar}
    (built : declarations.build variant = .ok grammar) :
    (grammar.terminals.map (·.name)).Nodup := by
  obtain ⟨parts, accepted, rfl⟩ := build_eq_ok_iff.1 built
  rw [terminal_names]
  have tokens : declarations.tokenNames.Nodup := (distinct_lists_once _).nodup
  apply List.nodup_append.2 ⟨tokens, List.nodup_singleton _, ?_⟩
  intro name member last final same
  rw [List.mem_singleton.1 final] at same
  exact (accepted.token_name_allowed member).1 same

/-- Whatever was declared, a grammar that was built represents it. -/
theorem built_grammar_represents {grammar : Grammar}
    (built : declarations.build variant = .ok grammar) : grammar.Represents declarations := by
  obtain ⟨parts, accepted, rfl⟩ := build_eq_ok_iff.1 built
  exact accepted.represents

section Clashes

/-- Rules that bear the names which the synthetic symbols would take, one of them without
alternatives, and a token that only a precedence line declares. -/
def clashingDeclarations : Declarations where
  rules := [
    ⟨"S", [⟨[.rule "~", .token "a"], none⟩, ⟨[.token "+", .rule "S'"], none⟩]⟩,
    ⟨"S'", []⟩,
    ⟨"~", [⟨[], none⟩]⟩,
    ⟨"$", [⟨[.rule "S"], some "+"⟩]⟩]
  tokens := ["a", "w", "a"]
  precedenceLines := [⟨.left, ["+", "a"]⟩]
  implicitTokens := some ["w"]

def clashing : Grammar where
  variant := .eco
  tokens := [⟨.terminal, 0, "a"⟩, ⟨.terminal, 1, "w"⟩, ⟨.terminal, 2, "+"⟩]
  eof := ⟨.terminal, 3, "$"⟩
  nonterminals := [⟨.nonterminal, 0, "S"⟩, ⟨.nonterminal, 1, "S'"⟩, ⟨.nonterminal, 2, "~"⟩,
    ⟨.nonterminal, 3, "$"⟩, ⟨.nonterminal, 4, "~'"⟩, ⟨.nonterminal, 5, "S''"⟩]
  leading := [
    ⟨0, ⟨.nonterminal, 0, "S"⟩,
      [⟨.nonterminal, 2, "~"⟩, ⟨.terminal, 0, "a"⟩, ⟨.nonterminal, 4, "~'"⟩], none⟩,
    ⟨1, ⟨.nonterminal, 0, "S"⟩,
      [⟨.terminal, 2, "+"⟩, ⟨.nonterminal, 4, "~'"⟩, ⟨.nonterminal, 1, "S'"⟩], none⟩,
    ⟨2, ⟨.nonterminal, 2, "~"⟩, [], none⟩,
    ⟨3, ⟨.nonterminal, 3, "$"⟩, [⟨.nonterminal, 0, "S"⟩], some "+"⟩,
    ⟨4, ⟨.nonterminal, 4, "~'"⟩, [⟨.terminal, 1, "w"⟩, ⟨.nonterminal, 4, "~'"⟩], none⟩,
    ⟨5, ⟨.nonterminal, 4, "~'"⟩, [], none⟩]
  startProduction := ⟨6, ⟨.nonterminal, 5, "S''"⟩,
    [⟨.nonterminal, 4, "~'"⟩, ⟨.nonterminal, 0, "S"⟩, ⟨.terminal, 3, "$"⟩], none⟩
  start := ⟨.nonterminal, 0, "S"⟩
  implicitRule := some ⟨.nonterminal, 4, "~'"⟩
  precedences := .ofPairs [("+", ⟨1, .left⟩), ("a", ⟨1, .left⟩)]
  errorTexts := ∅

theorem clashing_built : clashingDeclarations.build .eco = .ok clashing := by
  rfl

theorem clashing_represents :
    clashingDeclarations.build .eco = .ok clashing ∧ clashing.Represents clashingDeclarations :=
  ⟨clashing_built, built_grammar_represents clashing_built⟩

end Clashes

end Declarations

end GrammarKit
