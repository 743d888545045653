import GrammarKit.Proofs.Monotone
import GrammarKit.Proofs.Renaming.Build
import GrammarKit.Proofs.Renaming.Findings

/-!
# Names do not matter

Declarations under other names that are told apart as before fail as they failed before, or become
a grammar that differs in its names only. The names made up for synthetic symbols need not change
along with the others, since what is taken differs. But that is seen nowhere: analyses, precedences,
decisions and findings are the same by kinds and indices.
-/

namespace GrammarKit

set_option autoImplicit false

def Symbol.outline (symbol : Symbol) : SymbolKind × Int := (symbol.kind, symbol.index)

structure Production.Outline where
  index : Int
  lhs : SymbolKind × Int
  rhs : List (SymbolKind × Int)
deriving DecidableEq

def Production.outline (production : Production) : Outline :=
  ⟨production.index, production.lhs.outline, production.rhs.map (·.outline)⟩

/-- What there is to a finding apart from its text. -/
structure Diagnostic.Outline where
  kind : DiagnosticKind
  severity : Severity
  symbol : SymbolKind × Int
  production : Option Int
  token : Option (SymbolKind × Int)
deriving DecidableEq

def Diagnostic.outline (finding : Diagnostic) : Outline :=
  ⟨finding.kind, finding.severity, finding.symbol.outline, finding.production?.map (·.index),
    finding.token?.map (·.outline)⟩

/-- The tables rank alike, and decide alike on productions and tokens in the same places. -/
structure PrecedenceTable.DecidesLike (own other : PrecedenceTable) : Prop where
  tokens : other.tokens = own.tokens
  productions : other.productions = own.productions
  decisions : ∀ (row column : Nat) (production : Production) (token : Symbol),
    own.grammar.productions[row]? = some production →
    own.grammar.terminals[column]? = some token →
      ∃ otherProduction otherToken decision changed,
        other.grammar.productions[row]? = some otherProduction ∧
        other.grammar.terminals[column]? = some otherToken ∧
        own.resolveShiftReduce production token = .ok decision ∧
        other.resolveShiftReduce otherProduction otherToken = .ok changed ∧
        changed.action = decision.action ∧
        changed.diagnostic.map (·.outline) = decision.diagnostic.map (·.outline)

/-- Two grammars of this many declared rules that differ in their names only. -/
structure SameUpToNames (rename : String → String) (rules : Nat) (own other : Grammar) : Prop where
  /-- Terminals and declared rules go by the new names, wherever they stand. -/
  renamed : ∃ naming : Naming, naming.declared = rename ∧
    (∀ symbol ∈ own.terminals ++ own.nonterminals.take rules, symbol.NamedBy naming) ∧
    other = own.renamed naming
  productions : other.productions.map (·.outline) = own.productions.map (·.outline)
  firsts : FirstTable.ofGrammar other = FirstTable.ofGrammar own
  follows : FollowTable.ofGrammar other = FollowTable.ofGrammar own
  precedences : ∃ ranked changed, PrecedenceTable.ofGrammar own = .ok ranked ∧
    PrecedenceTable.ofGrammar other = .ok changed ∧ ranked.DecidesLike changed
  expansions : other.countExpansions = own.countExpansions
  findings : ∃ report changed, (own.validate {}).outcome = .ok report ∧
    (other.validate {}).outcome = .ok changed ∧
    changed.diagnostics.map (·.outline) = report.diagnostics.map (·.outline)

section Outlines

variable {naming : Naming}

theorem Symbol.outline_renamed (symbol : Symbol) :
    (symbol.renamed naming).outline = symbol.outline := rfl

theorem Production.outline_renamed (production : Production) :
    (production.renamed naming).outline = production.outline := by
  simp [outline, Symbol.outline_renamed, Function.comp_def]

theorem Diagnostic.outline_renamed (finding : Diagnostic) :
    (finding.renamed naming).outline = finding.outline := by
  cases finding <;> rfl

end Outlines

namespace Grammar.NamedBy

variable {naming : Naming} {grammar : Grammar} (named : grammar.NamedBy naming)

include named

theorem owed_report_renamed :
    (grammar.renamed naming).owedReport.diagnostics.map (·.outline) =
      grammar.owedReport.diagnostics.map (·.outline) := by
  unfold owedReport
  simp [List.map_flatMap, owed_renamed named, Diagnostic.outline_renamed, Function.comp_def]

theorem decides_like (numbered : grammar.ProductionsNumbered) :
    (PrecedenceTable.complete grammar).DecidesLike
      (PrecedenceTable.complete (grammar.renamed naming)) where
  tokens := by
    change (grammar.renamed naming).terminals.map _ = grammar.terminals.map _
    rw [renamed_terminals, List.map_map]
    exact List.map_congr_left fun _ member => named.precedence_of_renamed member
  productions := by
    change (grammar.renamed naming).productions.map _ = grammar.productions.map _
    rw [renamed_productions, List.map_map]
    exact List.map_congr_left fun _ member => named.production_precedence_renamed member
  decisions := by
    intro row column production token inRow inColumn
    change grammar.productions[row]? = some production at inRow
    change grammar.terminals[column]? = some token at inColumn
    have member := List.mem_of_getElem? inRow
    have known := List.mem_of_getElem? inColumn
    have otherRow : (grammar.renamed naming).productions[row]? =
        some (production.renamed naming) := by
      rw [renamed_productions, List.getElem?_map, inRow, Option.map_some]
    have otherColumn : (grammar.renamed naming).terminals[column]? =
        some (token.renamed naming) := by
      rw [renamed_terminals, List.getElem?_map, inColumn, Option.map_some]
    have decided := PrecedenceTable.resolve_eq named.whole.renamed numbered.renamed
      (List.mem_of_getElem? otherRow) (List.mem_of_getElem? otherColumn)
    rw [named.resolution_renamed member known] at decided
    refine ⟨_, _, _, _, otherRow, otherColumn,
      PrecedenceTable.resolve_eq named.whole numbered member known, decided, rfl, ?_⟩
    simp [Resolution.renamed, Diagnostic.outline_renamed, Function.comp_def]

end Grammar.NamedBy

namespace Declarations

variable {rename : String → String}

theorem built_named {declarations : Declarations} {variant : Variant} {grammar : Grammar}
    (built : declarations.build variant = .ok grammar) (injective : Function.Injective rename)
    (start : Symbol) : grammar.NamedBy (declarations.naming rename variant start) where
  whole := well_formed_of_build built
  injective := injective
  terminals := by
    intro terminal member
    obtain ⟨place, inside, rfl⟩ := List.getElem_of_mem member
    have numbered := (well_formed_of_build built).terminals_numbered
    exact named_of_apart start (.inl (numbered_table_item numbered inside).1)

theorem declared_rules_of_build {declarations : Declarations} {variant : Variant}
    {grammar : Grammar} (built : declarations.build variant = .ok grammar) :
    grammar.nonterminals.take declarations.rules.length = declarations.ruleSymbols := by
  obtain ⟨parts, _, rfl⟩ := build_eq_ok_iff.1 built
  change (declarations.ruleSymbols ++ _ ++ _).take _ = _
  rw [← length_rule_symbols, List.append_assoc, List.take_left]

/-- Under other names the declarations make the same grammar up to names, or fail as before. -/
theorem names_do_not_matter (injective : Function.Injective rename)
    (ends : rename endOfInput = endOfInput) (declarations : Declarations) (variant : Variant) :
    SameOutcome (SameUpToNames rename declarations.rules.length)
      (declarations.build variant) ((declarations.renamed rename).build variant) := by
  apply (build_renamed injective ends declarations variant).imp
  rintro grammar _ built otherBuilt ⟨start, rfl⟩
  have named := built_named built injective start
  constructor
  case renamed =>
    refine ⟨_, rfl, ?_, rfl⟩
    intro symbol member
    rw [declared_rules_of_build built] at member
    rcases List.mem_append.1 member with terminal | rule
    · exact named.terminals symbol terminal
    · exact named_of_apart start (.inr (rule_symbol_index rule).2.2)
  case productions =>
    simp [Production.outline_renamed, Function.comp_def]
  case firsts => exact FirstTable.of_grammar_renamed grammar
  case follows => exact FollowTable.of_grammar_renamed grammar
  case precedences =>
    exact ⟨_, _, PrecedenceTable.of_grammar_eq named.whole,
      PrecedenceTable.of_grammar_eq named.whole.renamed,
      named.decides_like (productions_numbered_of_build built)⟩
  case expansions =>
    unfold Grammar.countExpansions
    rw [Grammar.check_expansions_renamed, Grammar.expansions_renamed]
  case findings =>
    exact ⟨_, _, validate_of_build built, validate_of_build otherBuilt, named.owed_report_renamed⟩

/-- Only under its new name does the rule bear the name that the implicit rule would take. -/
theorem spaced_renamed :
    Function.Injective (Equiv.swap "S" "~") ∧ Equiv.swap "S" "~" endOfInput = endOfInput ∧
      ∃ grammar other, spaced.build .eco = .ok grammar ∧
        (spaced.renamed (Equiv.swap "S" "~")).build .eco = .ok other ∧
        SameUpToNames (Equiv.swap "S" "~") 1 grammar other ∧
        grammar.nonterminals.map (·.name) = ["S", "~", "S'"] ∧
        other.nonterminals.map (·.name) = ["~", "~'", "~''"] := by
  have injective : Function.Injective (Equiv.swap "S" "~") := (Equiv.swap "S" "~").injective
  have ends : Equiv.swap "S" "~" endOfInput = endOfInput := by decide
  have names : (spaced.build .eco).map (fun grammar => grammar.nonterminals.map (·.name)) =
      .ok ["S", "~", "S'"] := by decide +kernel
  have otherNames : ((spaced.renamed (Equiv.swap "S" "~")).build .eco).map
      (fun grammar => grammar.nonterminals.map (·.name)) = .ok ["~", "~'", "~''"] := by
    decide +kernel
  obtain ⟨grammar, built, named⟩ := except_map_eq_ok_iff.1 names
  obtain ⟨other, otherBuilt, otherNamed⟩ := except_map_eq_ok_iff.1 otherNames
  have same := names_do_not_matter injective ends spaced .eco
  rw [built, otherBuilt] at same
  cases same with
  | answered holds =>
      exact ⟨injective, ends, grammar, other, built, otherBuilt, holds, named, otherNamed⟩

end Declarations

end GrammarKit
