import GrammarKit.Analysis.Follow
import GrammarKit.Analysis.Productive
import GrammarKit.Grammar.RuleGraph
import GrammarKit.Proofs.Outcomes
import GrammarKit.Proofs.Registers
import GrammarKit.Sentence.Magnitude

/-!
# Analyses of renamed grammars

A grammar under other names has the same symbols by kind and index. The analyses read nothing else
of a symbol, so each step of theirs does the same in both grammars, and so do all passes: tables,
faults and numbers of passes agree, whatever the names are.
-/

namespace GrammarKit

set_option autoImplicit false

/-- New names of symbols, and of whatever is spoken of by a declared name. -/
structure Naming where
  symbol : Symbol → String
  declared : String → String

def Symbol.renamed (naming : Naming) (symbol : Symbol) : Symbol :=
  { symbol with name := naming.symbol symbol }

def Production.renamed (naming : Naming) (production : Production) : Production where
  index := production.index
  lhs := production.lhs.renamed naming
  rhs := production.rhs.map (·.renamed naming)
  precedence := production.precedence.map naming.declared

namespace Grammar

def renamed (naming : Naming) (grammar : Grammar) : Grammar where
  variant := grammar.variant
  tokens := grammar.tokens.map (·.renamed naming)
  eof := grammar.eof.renamed naming
  nonterminals := grammar.nonterminals.map (·.renamed naming)
  leading := grammar.leading.map (·.renamed naming)
  startProduction := grammar.startProduction.renamed naming
  start := grammar.start.renamed naming
  implicitRule := grammar.implicitRule.map (·.renamed naming)
  precedences := grammar.precedences.rekeyed naming.declared
  errorTexts := grammar.errorTexts

end Grammar

variable {naming : Naming}

section Reading

@[simp]
theorem Symbol.renamed_kind (symbol : Symbol) : (symbol.renamed naming).kind = symbol.kind := rfl

@[simp]
theorem Symbol.renamed_index (symbol : Symbol) : (symbol.renamed naming).index = symbol.index := rfl

@[simp]
theorem Symbol.renamed_is_terminal (symbol : Symbol) :
    (symbol.renamed naming).isTerminal = symbol.isTerminal := rfl

@[simp]
theorem Symbol.renamed_is_nonterminal (symbol : Symbol) :
    (symbol.renamed naming).isNonterminal = symbol.isNonterminal := rfl

@[simp]
theorem Production.renamed_index (production : Production) :
    (production.renamed naming).index = production.index := rfl

@[simp]
theorem Production.renamed_lhs (production : Production) :
    (production.renamed naming).lhs = production.lhs.renamed naming := rfl

@[simp]
theorem Production.renamed_rhs (production : Production) :
    (production.renamed naming).rhs = production.rhs.map (·.renamed naming) := rfl

variable (grammar : Grammar)

@[simp]
theorem Grammar.renamed_terminals :
    (grammar.renamed naming).terminals = grammar.terminals.map (·.renamed naming) := by
  simp [terminals, renamed]

@[simp]
theorem Grammar.renamed_nonterminals :
    (grammar.renamed naming).nonterminals = grammar.nonterminals.map (·.renamed naming) := rfl

@[simp]
theorem Grammar.renamed_productions :
    (grammar.renamed naming).productions = grammar.productions.map (·.renamed naming) := by
  simp [productions, renamed]

@[simp]
theorem Grammar.renamed_start : (grammar.renamed naming).start = grammar.start.renamed naming := rfl

@[simp]
theorem Grammar.renamed_eof : (grammar.renamed naming).eof = grammar.eof.renamed naming := rfl

@[simp]
theorem Grammar.renamed_augmented_start :
    (grammar.renamed naming).augmentedStart = grammar.augmentedStart.renamed naming := rfl

end Reading

section Passes

variable {σ : Type}

/-- A pass whose steps do the same for a production under other names. -/
theorem fold_renamed {step : σ → Production → σ}
    (same : ∀ state production, step state (production.renamed naming) = step state production)
    (productions : List Production) :
    (productions.map (·.renamed naming)).foldl step = productions.foldl step := by
  funext state
  rw [List.foldl_map]
  simp only [same]

theorem for_m_renamed {check : Production → Noted PUnit}
    (same : ∀ production, check (production.renamed naming) = check production)
    (productions : List Production) :
    (productions.map (·.renamed naming)).forM check = productions.forM check := by
  induction productions with
  | nil => rfl
  | cons production rest ih =>
      change (check (production.renamed naming) >>= fun _ => _) = check production >>= fun _ => _
      rw [same, ih]

theorem blank_entries_renamed {α : Type} (symbols : List Symbol) (entry : α) :
    (symbols.map (·.renamed naming)).map (fun _ => entry) = symbols.map fun _ => entry := by
  rw [List.map_map]
  rfl

end Passes

section First

namespace FirstTable

variable (table : FirstTable)

theorem of_symbol_renamed (symbol : Symbol) :
    table.ofSymbol (symbol.renamed naming) = table.ofSymbol symbol := rfl

theorem of_sequence_renamed (form : List Symbol) :
    table.ofSequence (form.map (·.renamed naming)) = table.ofSequence form := by
  induction form with
  | nil => rfl
  | cons symbol rest ih => rw [List.map_cons, ofSequence, ofSequence, ih, of_symbol_renamed]

theorem learn_renamed (production : Production) :
    table.learn (production.renamed naming) = table.learn production := by
  unfold learn
  rw [Production.renamed_rhs, of_sequence_renamed]
  rfl

theorem settled_renamed (grammar : Grammar) :
    settled (grammar.renamed naming) = settled grammar := by
  have passes : pass (grammar.renamed naming).productions = pass grammar.productions := by
    rw [Grammar.renamed_productions]
    exact fold_renamed learn_renamed grammar.productions
  have bound : passBound (grammar.renamed naming) = passBound grammar := by
    simp [passBound, List.length_flatMap, Function.comp_def]
  unfold settled blank
  rw [passes, bound, Grammar.renamed_nonterminals, blank_entries_renamed]

theorem of_grammar_renamed (grammar : Grammar) :
    ofGrammar (grammar.renamed naming) = ofGrammar grammar := by
  unfold ofGrammar
  rw [settled_renamed, Grammar.renamed_productions]
  dsimp only
  rw [for_m_renamed]
  intro production
  rw [Production.renamed_rhs, of_sequence_renamed]

end FirstTable

end First

section Follow

theorem occurrences_renamed (form : List Symbol) :
    occurrences (form.map (·.renamed naming)) =
      (occurrences form).map fun occurrence =>
        (occurrence.1.renamed naming, occurrence.2.map (·.renamed naming)) := by
  induction form with
  | nil => rfl
  | cons symbol rest ih =>
      rw [List.map_cons, occurrences, occurrences, ih, Symbol.renamed_is_nonterminal]
      split <;> simp

theorem Flow.of_grammar_renamed (grammar : Grammar) (firsts : FirstTable) :
    ofGrammar (grammar.renamed naming) firsts = ofGrammar grammar firsts := by
  have each (production : Production) :
      (occurrences (production.renamed naming).rhs).mapM
          (along firsts (production.renamed naming)) =
        (occurrences production.rhs).mapM (along firsts production) := by
    rw [Production.renamed_rhs, occurrences_renamed, List.mapM_map]
    apply except_map_m_congr
    intro occurrence _
    change (firsts.ofSequence (occurrence.2.map (·.renamed naming)) >>= fun _ => _) = _
    rw [FirstTable.of_sequence_renamed]
    rfl
  unfold ofGrammar
  rw [Grammar.renamed_productions, List.mapM_map]
  exact congrArg (· >>= _) (except_map_m_congr fun production _ => each production)

namespace FollowTable

theorem blank_renamed (grammar : Grammar) : blank (grammar.renamed naming) = blank grammar := by
  unfold blank
  rw [Grammar.renamed_nonterminals, blank_entries_renamed]
  rfl

theorem settled_renamed (grammar : Grammar) (flows : List Flow) :
    settled (grammar.renamed naming) flows = settled grammar flows := by
  unfold settled passBound
  rw [blank_renamed, Grammar.renamed_nonterminals, List.length_map]

theorem of_firsts_renamed (grammar : Grammar) (firsts : FirstTable) :
    ofFirsts (grammar.renamed naming) firsts = ofFirsts grammar firsts := by
  have size : (grammar.renamed naming).nonterminals.length = grammar.nonterminals.length :=
    List.length_map _
  unfold ofFirsts Grammar.ruleSlot?
  rw [Flow.of_grammar_renamed, size]
  simp only [settled_renamed]
  rfl

theorem of_grammar_renamed (grammar : Grammar) :
    ofGrammar (grammar.renamed naming) = ofGrammar grammar := by
  unfold ofGrammar
  rw [FirstTable.of_grammar_renamed]
  simp only [of_firsts_renamed]

end FollowTable

end Follow

section Sets

theorem Production.is_productive_renamed (production : Production) (known : IndexSet) :
    (production.renamed naming).isProductive known = production.isProductive known := by
  unfold isProductive
  rw [renamed_rhs, List.all_map]
  rfl

theorem Productive.learn_renamed (known : IndexSet) (production : Production) :
    learn known (production.renamed naming) = learn known production := by
  unfold learn
  rw [Production.is_productive_renamed]
  rfl

theorem Grammar.productive_renamed (grammar : Grammar) :
    (grammar.renamed naming).productive = grammar.productive := by
  have passes : Productive.pass (grammar.renamed naming).productions =
      Productive.pass grammar.productions := by
    rw [renamed_productions]
    exact fold_renamed Productive.learn_renamed grammar.productions
  unfold productive Productive.settled
  rw [passes, renamed_productions, List.length_map]

theorem Production.arcs_renamed (production : Production) :
    (production.renamed naming).arcs = production.arcs := by
  simp [arcs, List.filter_map, Function.comp_def]

theorem Grammar.rule_graph_renamed (grammar : Grammar) :
    (grammar.renamed naming).ruleGraph = grammar.ruleGraph := by
  simp [ruleGraph, List.flatMap_map, Production.arcs_renamed, Function.comp_def]

theorem Grammar.reachable_renamed (grammar : Grammar) :
    (grammar.renamed naming).reachable = grammar.reachable := by
  unfold reachable
  rw [rule_graph_renamed]
  rfl

end Sets

section Expansions

namespace CostTable

variable (table : CostTable)

theorem of_symbol_renamed (symbol : Symbol) :
    table.ofSymbol .free (symbol.renamed naming) = table.ofSymbol .free symbol := rfl

theorem of_sequence_renamed (form : List Symbol) :
    table.ofSequence .free (form.map (·.renamed naming)) = table.ofSequence .free form := by
  simp [ofSequence, List.foldr_map, of_symbol_renamed]

theorem learn_renamed (production : Production) :
    table.learn .free (production.renamed naming) = table.learn .free production := by
  unfold learn ofProduction
  rw [Production.renamed_rhs, of_sequence_renamed]
  rfl

theorem blank_renamed (grammar : Grammar) : blank (grammar.renamed naming) = blank grammar := by
  unfold blank
  rw [Grammar.renamed_nonterminals, blank_entries_renamed]

theorem fault_of_renamed (start : Cost) (production : Production) :
    table.faultOf .free start (production.renamed naming) =
      table.faultOf .free start production := by
  unfold faultOf
  rw [Production.renamed_rhs, List.foldlM_map]
  rfl

theorem of_grammar_renamed (grammar : Grammar) :
    ofGrammar (grammar.renamed naming) .free = ofGrammar grammar .free := by
  have passes : pass .free (grammar.renamed naming).productions =
      pass .free grammar.productions := by
    rw [Grammar.renamed_productions]
    exact fold_renamed learn_renamed grammar.productions
  unfold ofGrammar settled
  rw [passes, blank_renamed, Grammar.renamed_nonterminals, List.length_map]

end CostTable

theorem Trial.learn_renamed (start : Cost) (trial : Trial) (production : Production) :
    trial.learn .free start (production.renamed naming) = trial.learn .free start production := by
  unfold learn
  rw [CostTable.learn_renamed, CostTable.fault_of_renamed]

namespace Grammar

theorem expansions_renamed (grammar : Grammar) :
    (grammar.renamed naming).expansions = grammar.expansions := by
  unfold expansions
  rw [CostTable.of_grammar_renamed]

theorem check_expansions_renamed (grammar : Grammar) :
    (grammar.renamed naming).checkExpansions = grammar.checkExpansions := by
  have passes : Trial.pass .free Cost.zero (grammar.renamed naming).productions =
      Trial.pass .free Cost.zero grammar.productions := by
    rw [renamed_productions]
    exact fold_renamed (Trial.learn_renamed Cost.zero) grammar.productions
  unfold checkExpansions checkSums
  rw [passes, CostTable.blank_renamed, renamed_nonterminals, List.length_map]

end Grammar

end Expansions

end GrammarKit
