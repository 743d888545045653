import GrammarKit.Proofs.Build.Valid
import GrammarKit.Proofs.Report.Findings

/-!
# Reports are exact

The report of a built grammar is made up of what its checks owe: group by group in a fixed order,
each finding once, and inside a group in the order of the tables. No symbol of a built grammar is
undefined, so no check is ever left out.
-/

namespace GrammarKit

set_option autoImplicit false

def Check.kind : Check → DiagnosticKind
  | undefinedSymbols => .undefinedSymbol
  | emptyRules => .emptyRule
  | unreachableNonterminals => .unreachableNonterminal
  | unproductiveNonterminals => .unproductiveNonterminal
  | unusedTerminals => .unusedTerminal
  | unusedPrecedences => .unusedPrecedence
  | ambiguousNonassoc => .ambiguousNonassoc

namespace Grammar

variable {grammar : Grammar}

noncomputable def owedReport (grammar : Grammar) : Report :=
  ⟨Check.structural.flatMap (Check.owed grammar)⟩

section Groups

theorem owed_kind {check : Check} {finding : Diagnostic} (owed : finding ∈ check.owed grammar) :
    finding.kind = check.kind := by
  cases check with
  | undefinedSymbols => cases owed
  | emptyRules | unreachableNonterminals | unproductiveNonterminals | unusedTerminals =>
      obtain ⟨_, _, rfl⟩ := List.mem_map.1 owed
      rfl
  | unusedPrecedences =>
      obtain ⟨_, _, inside⟩ := List.mem_flatMap.1 owed
      obtain ⟨_, _, rfl⟩ := List.mem_map.1 inside
      rfl
  | ambiguousNonassoc =>
      obtain ⟨_, _, inside⟩ := List.mem_flatMap.1 owed
      obtain ⟨_, _, _, _, rfl⟩ := mem_clashes_of.1 inside
      rfl

theorem owed_nodup (whole : grammar.WellFormed) (apart : grammar.productions.Nodup)
    (check : Check) : (check.owed grammar).Nodup := by
  have nonterminals := whole.nonterminals_numbered.nodup
  have terminals := whole.terminals_numbered.nodup
  cases check with
  | undefinedSymbols => exact List.nodup_nil
  | emptyRules | unproductiveNonterminals | unreachableNonterminals =>
      apply (nonterminals.filter _).map
      intro left right same
      cases same
      rfl
  | unusedTerminals =>
      apply (terminals.filter _).map
      intro left right same
      cases same
      rfl
  | unusedPrecedences =>
      apply List.nodup_flatMap.2
      constructor
      · intro entry _
        apply (terminals.filter _).map
        intro left right same
        cases same
        rfl
      · have keys := grammar.precedences.once
        rw [List.Nodup, List.pairwise_map] at keys
        apply keys.imp
        intro left right differ finding inLeft inRight
        obtain ⟨_, _, rfl⟩ := List.mem_map.1 inLeft
        obtain ⟨_, _, same⟩ := List.mem_map.1 inRight
        rw [Diagnostic.unusedPrecedence.injEq] at same
        exact differ same.1.symm
  | ambiguousNonassoc =>
      apply List.nodup_flatMap.2
      constructor
      · intro production _
        apply (terminals.filter _).map
        intro left right same
        cases same
        rfl
      · apply apart.imp
        intro left right differ finding inLeft inRight
        obtain ⟨_, _, _, _, rfl⟩ := mem_clashes_of.1 inLeft
        obtain ⟨_, _, _, _, same⟩ := mem_clashes_of.1 inRight
        cases same
        exact differ rfl

/-- Findings of different checks differ, since they are of different kinds. -/
theorem all_owed_nodup (whole : grammar.WellFormed) (apart : grammar.productions.Nodup) :
    grammar.owedReport.diagnostics.Nodup := by
  apply List.nodup_flatMap.2
  refine ⟨fun check _ => owed_nodup whole apart check, ?_⟩
  have kinds : Check.structural.Pairwise fun left right => left.kind ≠ right.kind := by decide
  apply kinds.imp
  intro left right differ finding inLeft inRight
  exact differ ((owed_kind inLeft).symm.trans (owed_kind inRight))

theorem check_of_kind {left right : Check} (same : left.kind = right.kind) : left = right := by
  revert same
  cases left <;> cases right <;> decide

theorem reported_iff (check : Check) (listed : check ∈ Check.structural) {finding : Diagnostic}
    (kind : finding.kind = check.kind) :
    finding ∈ grammar.owedReport.diagnostics ↔ finding ∈ check.owed grammar := by
  unfold owedReport
  rw [List.mem_flatMap]
  constructor
  · intro found
    obtain ⟨other, _, owed⟩ := found
    have same := check_of_kind ((owed_kind owed).symm.trans kind)
    exact same ▸ owed
  · intro owed
    exact ⟨check, listed, owed⟩

theorem empty_rule_reported_iff {symbol : Symbol} :
    .emptyRule symbol ∈ grammar.owedReport.diagnostics ↔
      symbol ∈ grammar.nonterminals ∧ ¬grammar.HasProduction symbol := by
  rw [reported_iff .emptyRules (by decide) rfl]
  simp [Check.owed]

theorem unreachable_reported_iff {symbol start : Symbol} :
    .unreachable symbol start ∈ grammar.owedReport.diagnostics ↔
      (symbol ∈ grammar.nonterminals ∧ ¬grammar.Reaches grammar.augmentedStart symbol) ∧
        grammar.start = start := by
  rw [reported_iff .unreachableNonterminals (by decide) rfl]
  simp [Check.owed]

theorem unproductive_reported_iff {symbol : Symbol} :
    .unproductive symbol ∈ grammar.owedReport.diagnostics ↔
      symbol ∈ grammar.nonterminals ∧ grammar.HasProduction symbol ∧
        ¬grammar.DerivesTokens symbol := by
  rw [reported_iff .unproductiveNonterminals (by decide) rfl]
  simp [Check.owed]

end Groups

theorem validate_outcome (whole : grammar.WellFormed) (numbered : grammar.ProductionsNumbered)
    (names : grammar.TellsNames) :
    (grammar.validate {}).outcome = .ok grammar.owedReport := by
  have found := noted_map_m_ok (checks_owed whole numbered names)
  unfold validate
  simp only [no_undefined_symbols whole, List.isEmpty_nil, Bool.not_true, Bool.false_eq_true,
    if_false, if_true, List.nil_append]
  refine noted_bind_eq_ok_iff.2 ⟨_, found, ?_⟩
  exact noted_bind_eq_ok_iff.2 ⟨⟨⟩, noted_for_m_ok fun _ _ => rfl, rfl⟩

end Grammar

namespace Declarations

variable {declarations : Declarations} {variant : Variant} {grammar : Grammar}

theorem tells_names_of_build (built : declarations.build variant = .ok grammar) :
    grammar.TellsNames where
  terminals_apart := terminal_names_distinct_of_build built
  no_rule := by
    obtain ⟨parts, accepted, rfl⟩ := build_eq_ok_iff.1 built
    intro terminal member token nonterminal among
    exact accepted.represents.names_apart nonterminal among terminal member token
  ranked := by
    obtain ⟨parts, accepted, rfl⟩ := build_eq_ok_iff.1 built
    intro name key
    have listed : name ∈ declarations.rankedTokens :=
      (precedence_names accepted.precedences).1 (Register.contains_iff.2 key)
    have named : name ∈ declarations.tokenNames :=
      mem_token_names.2 (List.mem_append_right _ listed)
    rw [← names_of_numbered .terminal declarations.tokenNames] at named
    obtain ⟨token, member, same⟩ := List.mem_map.1 named
    refine ⟨token, List.mem_append_left _ member, ?_, same⟩
    intro last
    rw [last] at member
    exact eof_not_token declarations member

theorem validate_of_build (built : declarations.build variant = .ok grammar) :
    (grammar.validate {}).outcome = .ok grammar.owedReport :=
  Grammar.validate_outcome (well_formed_of_build built) (productions_numbered_of_build built)
    (tells_names_of_build built)

/-- A validation reports what its checks owe and nothing else, each finding once and in the order of
the tables. Precedences come in the order of their declaration. -/
theorem validation_is_exact (built : declarations.build variant = .ok grammar) :
    ∃ report, (grammar.validate {}).outcome = .ok report ∧
      report.diagnostics =
        Check.emptyRules.owed grammar ++ Check.unreachableNonterminals.owed grammar ++
        Check.unproductiveNonterminals.owed grammar ++ Check.unusedTerminals.owed grammar ++
        Check.unusedPrecedences.owed grammar ++ Check.ambiguousNonassoc.owed grammar ∧
      report.diagnostics.Nodup ∧
      (∀ finding ∈ report.diagnostics, finding.kind ≠ .undefinedSymbol) ∧
      grammar.nonterminals.Pairwise (fun earlier later => earlier.index < later.index) ∧
      grammar.terminals.Pairwise (fun earlier later => earlier.index < later.index) ∧
      grammar.productions.Pairwise (fun earlier later => earlier.index < later.index) ∧
      grammar.precedences.entries = declarations.precedencePairs := by
  have whole := well_formed_of_build built
  refine ⟨_, validate_of_build built, ?_, ?_, ?_, whole.nonterminals_numbered.ascending,
    whole.terminals_numbered.ascending, (productions_numbered_of_build built).ascending,
    ranked_in_order built⟩
  · simp [Grammar.owedReport, Check.structural]
  · exact Grammar.all_owed_nodup whole (productions_nodup_of_build built)
  · intro finding member
    obtain ⟨check, listed, owed⟩ := List.mem_flatMap.1 member
    have kinds : ∀ check ∈ Check.structural, check.kind ≠ .undefinedSymbol := by decide
    rw [Grammar.owed_kind owed]
    exact kinds check listed

/-- A comparison that is not associative, next to rules and tokens that are of no use. -/
def comparisonDeclarations : Declarations where
  rules := [
    ⟨"S", [⟨[.rule "S", .token "<", .rule "S"], none⟩, ⟨[.token "n"], none⟩]⟩,
    ⟨"X", []⟩,
    ⟨"Y", [⟨[.rule "Y"], none⟩]⟩]
  tokens := ["n", "k"]
  precedenceLines := [⟨.left, ["!"]⟩, ⟨.nonassociative, ["<"]⟩]

def comparisons : Grammar where
  variant := .plain
  tokens := [⟨.terminal, 0, "n"⟩, ⟨.terminal, 1, "k"⟩, ⟨.terminal, 2, "!"⟩, ⟨.terminal, 3, "<"⟩]
  eof := ⟨.terminal, 4, "$"⟩
  nonterminals := [⟨.nonterminal, 0, "S"⟩, ⟨.nonterminal, 1, "X"⟩, ⟨.nonterminal, 2, "Y"⟩,
    ⟨.nonterminal, 3, "S'"⟩]
  leading := [
    ⟨0, ⟨.nonterminal, 0, "S"⟩,
      [⟨.nonterminal, 0, "S"⟩, ⟨.terminal, 3, "<"⟩, ⟨.nonterminal, 0, "S"⟩], none⟩,
    ⟨1, ⟨.nonterminal, 0, "S"⟩, [⟨.terminal, 0, "n"⟩], none⟩,
    ⟨2, ⟨.nonterminal, 2, "Y"⟩, [⟨.nonterminal, 2, "Y"⟩], none⟩]
  startProduction :=
    ⟨3, ⟨.nonterminal, 3, "S'"⟩, [⟨.nonterminal, 0, "S"⟩, ⟨.terminal, 4, "$"⟩], none⟩
  start := ⟨.nonterminal, 0, "S"⟩
  implicitRule := none
  precedences := .ofPairs [("!", ⟨1, .left⟩), ("<", ⟨2, .nonassociative⟩)]
  errorTexts := ∅

def comparisonFindings : List Diagnostic := [
  .emptyRule ⟨.nonterminal, 1, "X"⟩,
  .unreachable ⟨.nonterminal, 1, "X"⟩ ⟨.nonterminal, 0, "S"⟩,
  .unreachable ⟨.nonterminal, 2, "Y"⟩ ⟨.nonterminal, 0, "S"⟩,
  .unproductive ⟨.nonterminal, 2, "Y"⟩,
  .unusedTerminal ⟨.terminal, 1, "k"⟩,
  .unusedTerminal ⟨.terminal, 2, "!"⟩,
  .unusedPrecedence "!" ⟨1, .left⟩ ⟨.terminal, 2, "!"⟩,
  .ambiguousNonassoc ⟨0, ⟨.nonterminal, 0, "S"⟩,
    [⟨.nonterminal, 0, "S"⟩, ⟨.terminal, 3, "<"⟩, ⟨.nonterminal, 0, "S"⟩], none⟩
    ⟨.terminal, 3, "<"⟩]

theorem comparisons_built : comparisonDeclarations.build .plain = .ok comparisons := by
  rfl

theorem comparisons_validated :
    comparisonDeclarations.build .plain = .ok comparisons ∧
      ∃ report, (comparisons.validate {}).outcome = .ok report ∧
        report.diagnostics = comparisonFindings ∧
        report.diagnostics =
          Check.emptyRules.owed comparisons ++ Check.unreachableNonterminals.owed comparisons ++
          Check.unproductiveNonterminals.owed comparisons ++
          Check.unusedTerminals.owed comparisons ++ Check.unusedPrecedences.owed comparisons ++
          Check.ambiguousNonassoc.owed comparisons := by
  obtain ⟨report, validated, exact, _⟩ := validation_is_exact comparisons_built
  refine ⟨comparisons_built, report, validated, ?_, exact⟩
  have found : (comparisons.validate {}).outcome = .ok ⟨comparisonFindings⟩ := by
    decide +kernel
  rw [validated] at found
  exact congrArg Report.diagnostics (Except.ok.inj found)

end Declarations

end GrammarKit
