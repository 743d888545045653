import GrammarKit.Proofs.Generator.CheapestSentence
import GrammarKit.Proofs.Generator.Sound
import GrammarKit.Proofs.Report.Useless

/-!
# One meaning of productivity

A nonterminal is productive when it derives some text. The productive set, the tables of expansions
and of costs, the report of a validation and all requests to a generator agree on it: a productive
nonterminal is answered whatever is asked, and any other is refused with one and the same fault. The
sums of costs may overflow before there is a generator. Then nothing can be asked of it, though the
nonterminal is productive.
-/

namespace GrammarKit

set_option autoImplicit false

open DerivationTree

/-- None of the findings says that the nonterminal derives nothing. -/
def Report.CallsProductive (report : Report) (symbol : Symbol) : Prop :=
  .unproductive symbol ∉ report.diagnostics ∧ .emptyRule symbol ∉ report.diagnostics

theorem Grammar.calls_productive_iff {grammar : Grammar} (whole : grammar.WellFormed)
    {symbol : Symbol} (member : symbol ∈ grammar.nonterminals) :
    grammar.owedReport.CallsProductive symbol ↔ grammar.DerivesTokens symbol := by
  unfold Report.CallsProductive
  rw [unproductive_reported_iff, empty_rule_reported_iff]
  constructor
  · intro clean
    obtain ⟨productive, headed⟩ := clean
    by_contra fruitless
    have produces : grammar.HasProduction symbol := by
      by_contra headless
      exact headed ⟨member, headless⟩
    exact productive ⟨member, produces, fruitless⟩
  · intro derives
    have produces := has_production_of_derives whole member derives
    exact ⟨fun found => found.2.2 derives, fun found => found.2 produces⟩

namespace Generator

variable {generator : Generator} {symbol : Symbol}

section Tables

theorem Prepared.expansions_iff (prepared : generator.Prepared)
    (member : symbol ∈ generator.grammar.nonterminals) :
    (∃ fewest, generator.expansionsOf symbol.index = some fewest) ↔
      generator.grammar.DerivesTokens symbol := by
  have known : generator.grammar.Knows symbol := Or.inr member
  have needed : generator.need symbol = generator.expansionsOf symbol.index := by
    rw [need, prepared.whole.nonterminal_kind member]
    rfl
  rw [← needed]
  constructor
  · intro found
    obtain ⟨fewest, found⟩ := found
    obtain ⟨⟨tree, complete, rfl, _⟩, _⟩ := prepared.need_least known found
    exact (derives_tokens_iff prepared.whole).2 ⟨tree, complete, rfl⟩
  · exact prepared.need_of_derives known

theorem Exact.cost_iff (exact : generator.Exact)
    (member : symbol ∈ generator.grammar.nonterminals) :
    (∃ cost, generator.costs.costAt symbol.index = some cost) ↔
      generator.grammar.DerivesTokens symbol := by
  constructor
  · intro found
    obtain ⟨cost, entry⟩ := found
    obtain ⟨⟨tree, complete, rfl, _⟩, _⟩ := exact.cost_least member entry
    exact (derives_tokens_iff exact.whole).2 ⟨tree, complete, rfl⟩
  · exact exact.cost_found member

end Tables

section Requests

/-- All requests for the nonterminal are answered. A tree is there unless its run comes to candidates
whose weights have no sum. -/
structure Answers (generator : Generator) (symbol : Symbol) : Prop where
  tree : ∀ {σ : Type} (picker : Picker σ), generator.ServedBy picker → ∀ source,
    (∃ tree, (generator.tree picker symbol source).1 = .ok tree) ∨
      generator.HaltsUnsummed picker symbol source
  own_tree : generator.weights.isEmpty → ∃ tree, generator.ownTree symbol = .ok tree
  sentence : ∃ text, generator.minSentence symbol = .ok text ∧
    generator.grammar.Generates symbol text ∧ (text = [] ∨ generator.Unrolls symbol text)
  least : ∃ least, generator.minSentenceCost symbol = .ok least
  greatest : ∃ greatest, (generator.maxSentenceCost symbol).outcome = .ok greatest

/-- All requests for the nonterminal fail, and say that it derives nothing. -/
structure Refuses (generator : Generator) (symbol : Symbol) : Prop where
  tree : ∀ {σ : Type} (picker : Picker σ) (source : σ),
    (generator.tree picker symbol source).1 = .error (.noDerivation symbol)
  sentence : generator.minSentence symbol = .error (.noDerivation symbol)
  least : generator.minSentenceCost symbol = .error (.noDerivation symbol)
  greatest : (generator.maxSentenceCost symbol).outcome = .error (.noDerivation symbol)

theorem Prepared.heads_are_plain (prepared : generator.Prepared) :
    generator.headsArePlain = true := by
  apply List.all_eq_true.2
  intro production listed
  obtain ⟨place, index, _⟩ :=
    prepared.whole.rule_slot (prepared.whole.heads_known production listed)
  rw [index]
  exact decide_eq_true (Int.natCast_nonneg place)

theorem Prepared.max_sentence_cost_answered (prepared : generator.Prepared)
    (member : symbol ∈ generator.grammar.nonterminals)
    (derives : generator.grammar.DerivesTokens symbol) :
    ∃ greatest, (generator.maxSentenceCost symbol).outcome = .ok greatest := by
  have checked := (prepared.check_iff member).2 derives
  unfold maxSentenceCost maxSentenceCostBy
  rw [checked, prepared.heads_are_plain]
  by_cases endless : symbol.index ∈ generator.outlook.unbounded
  · rw [if_pos endless]
    exact ⟨none, rfl⟩
  · rw [if_neg endless]
    exact ⟨_, rfl⟩

theorem Exact.answers (exact : generator.Exact)
    (member : symbol ∈ generator.grammar.nonterminals)
    (derives : generator.grammar.DerivesTokens symbol) : generator.Answers symbol where
  tree := by
    intro σ picker served source
    rcases exact.tree_served member derives served source with ⟨tree, final, done, _⟩ | halted
    · exact Or.inl ⟨tree, by rw [done]⟩
    · exact Or.inr halted
  own_tree := by
    intro unweighted
    have served := served_of_unweighted unweighted
    rcases exact.tree_served member derives served generator.ownSource with
      ⟨tree, final, done, _⟩ | halted
    · exact ⟨tree, congrArg Prod.fst done⟩
    · exact absurd halted (not_halts_unsummed (not_unsummed_of_unweighted unweighted))
  sentence := by
    obtain ⟨text, answered, generated, _, unrolls⟩ := exact.min_sentence member derives
    exact ⟨text, answered, generated, unrolls⟩
  least := by
    obtain ⟨least, answered, _⟩ := exact.min_sentence_cost member derives
    exact ⟨least, answered⟩
  greatest := exact.max_sentence_cost_answered member derives

theorem Prepared.check_refuses (prepared : generator.Prepared)
    (member : symbol ∈ generator.grammar.nonterminals)
    (fruitless : ¬ generator.grammar.DerivesTokens symbol) :
    generator.check symbol = .error (.noDerivation symbol) := by
  have absent : symbol.index ∉ generator.productive := by
    rw [prepared.productive, Grammar.mem_productive_iff prepared.whole member]
    exact fruitless
  unfold check
  rw [prepared.whole.nonterminal_kind member, if_neg Bool.false_ne_true, if_pos absent]
  rfl

theorem Prepared.refuses (prepared : generator.Prepared)
    (member : symbol ∈ generator.grammar.nonterminals)
    (fruitless : ¬ generator.grammar.DerivesTokens symbol) : generator.Refuses symbol := by
  have refused := prepared.check_refuses member fruitless
  refine ⟨?_, ?_, ?_, ?_⟩
  · intro σ picker source
    unfold Generator.tree
    rw [refused]
  · unfold minSentence
    rw [refused]
    rfl
  · unfold minSentenceCost
    rw [refused]
    rfl
  · unfold maxSentenceCost maxSentenceCostBy
    rw [refused]
    rfl

end Requests

/-- What a generator of the grammar has to say of a nonterminal. -/
structure Tells (generator : Generator) (grammar : Grammar) (symbol : Symbol) : Prop where
  expansions : (∃ fewest, generator.expansionsOf symbol.index = some fewest) ↔
    grammar.DerivesTokens symbol
  cost : (∃ cost, generator.costs.costAt symbol.index = some cost) ↔ grammar.DerivesTokens symbol
  answers : grammar.DerivesTokens symbol → generator.Answers symbol
  refuses : ¬ grammar.DerivesTokens symbol → generator.Refuses symbol

theorem Exact.tells (exact : generator.Exact) (member : symbol ∈ generator.grammar.nonterminals) :
    generator.Tells generator.grammar symbol where
  expansions := exact.expansions_iff member
  cost := exact.cost_iff member
  answers := exact.answers member
  refuses := exact.refuses member

end Generator

/-- All that tells productive nonterminals from others, for any costs of tokens and any options. -/
structure Grammar.AgreesOnProductivity (grammar : Grammar) : Prop where
  productive : ∀ symbol ∈ grammar.nonterminals,
    (symbol.index ∈ grammar.productive ↔ grammar.DerivesTokens symbol)
  reported : ∃ report, (grammar.validate {}).outcome = .ok report ∧
    ∀ symbol ∈ grammar.nonterminals, (report.CallsProductive symbol ↔ grammar.DerivesTokens symbol)
  charges : ∀ charge : Symbol → Int, ∃ costs : TokenCosts,
    ∀ terminal ∈ grammar.terminals, costs.of terminal = charge terminal
  made : ∀ options, Generator.InOrder grammar options →
    Generator.MadeUnlessOverflow grammar options
  summed : ∀ options firsts generator,
    (Generator.ofGrammar grammar options firsts).outcome = .ok generator →
    (∀ entry ∈ options.weights.entries, ∃ value, entry.2 = .real value) →
      ∀ candidates, ¬ generator.Unsummed candidates
  told : ∀ options firsts generator, (∀ table ∈ firsts, FirstTable.Exact grammar table) →
    (Generator.ofGrammar grammar options firsts).outcome = .ok generator →
    ∀ symbol ∈ grammar.nonterminals, generator.Tells grammar symbol

namespace Declarations

open Generator

variable {declarations : Declarations} {variant : Variant} {grammar : Grammar}

theorem productivity_has_one_meaning (built : declarations.build variant = .ok grammar) :
    grammar.AgreesOnProductivity := by
  have whole := well_formed_of_build built
  have reported : ∀ symbol ∈ grammar.nonterminals,
      (grammar.owedReport.CallsProductive symbol ↔ grammar.DerivesTokens symbol) :=
    fun _ member => Grammar.calls_productive_iff whole member
  refine ⟨?_, ⟨_, validate_of_build built, reported⟩, ?_, ?_, ?_, ?_⟩
  · intro symbol member
    exact Grammar.mem_productive_iff whole member
  · exact TokenCosts.charges_listed (terminal_names_distinct_of_build built)
  · intro options ordered
    exact made_unless_overflow whole ordered
  · intro options firsts generator made reals
    obtain ⟨_, table, rfl⟩ := of_grammar_eq_ok made
    exact not_unsummed_of_reals reals
  · intro options firsts generator sound made symbol member
    obtain ⟨table, rfl, exact⟩ := exact_of_made whole sound made
    exact exact.tells member

section Comparisons

/-- Among comparisons only the start is productive. -/
theorem productivity_of_comparisons :
    comparisonDeclarations.build .plain = .ok comparisons ∧
      ∃ generator, (ofGrammar comparisons {} none).outcome = .ok generator ∧
        generator.Answers comparisons.start ∧ generator.Refuses ⟨.nonterminal, 1, "X"⟩ ∧
          generator.Refuses ⟨.nonterminal, 2, "Y"⟩ := by
  have agreed := productivity_has_one_meaning comparisons_built
  have admitted : Admitted comparisons {} := by
    refine ⟨by decide, ?_, by decide +kernel, by decide +kernel, by decide +kernel⟩
    intro entry absent
    cases absent
  have made := of_grammar_of_admitted (well_formed_of_build comparisons_built) admitted none
  have told := agreed.told {} none _ (by simp) made
  have fruitless : ∀ symbol ∈ comparisons.nonterminals,
      symbol.index ∉ comparisons.productive → ¬ comparisons.DerivesTokens symbol := by
    intro symbol member absent derives
    exact absent ((agreed.productive symbol member).2 derives)
  refine ⟨comparisons_built, _, made, ?_, ?_, ?_⟩
  · apply (told comparisons.start (by decide)).answers
    exact (agreed.productive comparisons.start (by decide)).1 (by decide +kernel)
  · apply (told _ (by decide)).refuses
    exact fruitless _ (by decide) (by decide +kernel)
  · apply (told _ (by decide)).refuses
    exact fruitless _ (by decide) (by decide +kernel)

/-- An operator that costs more than any double stands beside the start while the cost of the start
is still unknown. So there is no generator, although the start is productive. -/
theorem no_generator_with_heavy_operator :
    comparisonDeclarations.build .plain = .ok comparisons ∧
      comparisons.start ∈ comparisons.nonterminals ∧
      comparisons.DerivesTokens comparisons.start ∧
      InOrder comparisons (charging "<" doubleLimit) ∧
      (ofGrammar comparisons (charging "<" doubleLimit) none).outcome =
        .error .numberTooLarge := by
  have whole := well_formed_of_build comparisons_built
  have natural : (0 : Int) ≤ doubleLimit := Int.natCast_nonneg doubleLimit
  have ordered := charging_in_order comparisons "<" natural
  have overflow : comparisons.checkCosts (charging "<" doubleLimit).tokenCosts =
      .error .numberTooLarge := by
    decide +kernel
  have failed := of_grammar_of_overflow whole ordered (Or.inr ⟨by decide +kernel, overflow⟩)
  have derives := (Grammar.mem_productive_iff whole (by decide)).1
    (show comparisons.start.index ∈ comparisons.productive by decide +kernel)
  exact ⟨comparisons_built, by decide, derives, ordered, failed⟩

end Comparisons

end Declarations

end GrammarKit
