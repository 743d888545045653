import GrammarKit.Proofs.Build.Represented
import GrammarKit.Proofs.Generator.DearestRound
import GrammarKit.Proofs.Generator.Productivity

/-!
# Dearest texts

A generator answers that the texts of a nonterminal cost any amount when fruitful productions lead
from it to one that they lead back to. Otherwise it answers with the greatest cost of a text. The
answer is the one that a single round finds which goes through the nonterminals in reach, each of
them after all that stand in its fruitful productions, and only looks up costs that it knows.
-/

namespace GrammarKit

set_option autoImplicit false

open DerivationTree

namespace Generator

open Grammar

variable {generator : Generator} {symbol : Symbol} {production : Production}

section Table

variable (prepared : generator.Prepared)

include prepared

theorem Prepared.mem_bounded_iff {index : Int} :
    index ∈ generator.usefulGraph.nodes.without generator.outlook.unbounded ↔
      ∃ symbol ∈ generator.grammar.nonterminals, symbol.index = index ∧
        generator.grammar.DerivesTokens symbol ∧ ¬ generator.grammar.Recurs symbol := by
  rw [SortedSet.mem_without]
  constructor
  · intro bounded
    obtain ⟨node, absent⟩ := bounded
    change index ∈ generator.productive at node
    rw [prepared.productive] at node
    obtain ⟨symbol, member, rfl, derives⟩ := Productive.settled_sound prepared.whole index node
    rw [prepared.mem_unbounded_iff member derives] at absent
    exact ⟨symbol, member, rfl, derives, absent⟩
  · intro bounded
    obtain ⟨symbol, member, rfl, derives, straight⟩ := bounded
    rw [prepared.useful_node_iff member, prepared.mem_unbounded_iff member derives]
    exact ⟨derives, straight⟩

theorem Prepared.mem_bounded_alternatives_iff :
    production ∈ generator.alternativesWithin
        (generator.usefulGraph.nodes.without generator.outlook.unbounded) ↔
      generator.grammar.Fruitful production ∧ ¬ generator.grammar.Recurs production.lhs := by
  have placed : ∀ index ∈ generator.usefulGraph.nodes.without generator.outlook.unbounded,
      ∃ symbol ∈ generator.grammar.nonterminals, symbol.index = index := by
    intro index bounded
    obtain ⟨symbol, member, same, _⟩ := prepared.mem_bounded_iff.1 bounded
    exact ⟨symbol, member, same⟩
  rw [prepared.mem_alternatives_within_iff placed, and_congr_right_iff, prepared.mem_bounded_iff]
  intro fruitful
  have head := prepared.whole.heads_known production fruitful.1
  constructor
  · intro bounded
    obtain ⟨symbol, member, same, _, straight⟩ := bounded
    obtain rfl := prepared.whole.eq_of_same_index member head same
    exact straight
  · intro straight
    exact ⟨_, head, rfl, derives_tokens_of_production fruitful.1 fruitful.2, straight⟩

end Table

section Outlook

variable (prepared : generator.Prepared) (signed : generator.tokenCosts.Signed generator.grammar)

include prepared

theorem Prepared.dearest_carried :
    generator.Carried (generator.grammar.nonterminals.length + 1) generator.outlook.dearest := by
  have within : ∀ production,
      production ∈ generator.alternativesWithin
          (generator.usefulGraph.nodes.without generator.outlook.unbounded) ++
        (generator.alternativesWithin
          (generator.usefulGraph.nodes.without generator.outlook.unbounded)).reverse ↔
      generator.grammar.Fruitful production ∧ ¬ generator.grammar.Recurs production.lhs := by
    intro production
    rw [List.mem_append, List.mem_reverse, or_self]
    exact prepared.mem_bounded_alternatives_iff
  have carried := settle_climbs (motive := generator.Carried)
    (fun _ _ earlier => earlier.after_pass prepared.whole within)
    (generator.grammar.nonterminals.length + 1) (Carried.initially prepared.whole)
  rwa [Nat.zero_add] at carried

include signed

theorem Prepared.dearest_reached : generator.Reached generator.outlook.dearest := by
  apply settled_fold_keeps _ _ (Reached.initially prepared signed)
  intro production among table reached
  rw [List.mem_append, List.mem_reverse, or_self] at among
  exact reached.after_learn prepared.whole (prepared.mem_bounded_alternatives_iff.1 among).1

theorem Prepared.dearest_text (member : symbol ∈ generator.grammar.nonterminals)
    (derives : generator.grammar.DerivesTokens symbol)
    (straight : ¬ generator.grammar.Recurs symbol) :
    generator.grammar.DearestText generator.tokenCosts symbol
      (generator.dearestOf generator.outlook.dearest symbol) := by
  apply DearestText.of_trees prepared.whole
  · exact (prepared.dearest_reached signed).high symbol member derives
  · intro tree complete start
    subst start
    have kind := prepared.whole.nonterminal_kind member
    have low := (prepared.depth_le_span complete kind straight).trans (prepared.span_le member)
    exact prepared.dearest_carried.covered tree complete member straight (by omega)

theorem Prepared.max_sentence_cost (member : symbol ∈ generator.grammar.nonterminals)
    (derives : generator.grammar.DerivesTokens symbol) :
    ∃ greatest, (generator.maxSentenceCost symbol).outcome = .ok greatest ∧
      (greatest = none ↔ generator.grammar.Recurs symbol) ∧
      ∀ cost, greatest = some cost →
        generator.grammar.DearestText generator.tokenCosts symbol cost := by
  have checked := (prepared.check_iff member).2 derives
  unfold maxSentenceCost maxSentenceCostBy
  rw [checked, prepared.heads_are_plain]
  by_cases recurs : generator.grammar.Recurs symbol
  · rw [if_pos ((prepared.mem_unbounded_iff member derives).2 recurs)]
    refine ⟨none, rfl, by simp [recurs], ?_⟩
    intro cost absent
    cases absent
  · rw [if_neg fun endless => recurs ((prepared.mem_unbounded_iff member derives).1 endless)]
    refine ⟨some _, rfl, by simp [recurs], ?_⟩
    intro cost found
    obtain rfl := Option.some.inj found
    exact prepared.dearest_text signed member derives recurs

end Outlook

end Generator

namespace Declarations

open Generator Grammar

variable {declarations : Declarations} {variant : Variant} {grammar : Grammar}

/-- However tokens are charged, a generator is there unless the sums overflow. For each nonterminal
that derives some text it says that texts are unbounded, exactly where a recursion is in reach, or
finds the cost of a dearest one. In that case the nonterminals in reach can be put in an order in
which no arc leads back. A round along any such order asks for no cost before it is known, and finds
the same. -/
theorem dearest_texts_answered (built : declarations.build variant = .ok grammar) :
    (∀ charge : Symbol → Int, ∃ costs : TokenCosts,
      ∀ terminal ∈ grammar.terminals, costs.of terminal = charge terminal) ∧
    (∀ options, InOrder grammar options → MadeUnlessOverflow grammar options) ∧
    ∀ options firsts generator, (ofGrammar grammar options firsts).outcome = .ok generator →
      ∀ symbol ∈ grammar.nonterminals, grammar.DerivesTokens symbol →
        ∃ greatest, (generator.maxSentenceCost symbol).outcome = .ok greatest ∧
          (greatest = none ↔ grammar.Recurs symbol) ∧
          ∀ cost, greatest = some cost →
            grammar.DearestText options.tokenCosts symbol cost ∧
            (∃ order, generator.usefulGraph.Forward symbol.index order) ∧
            ∀ order, generator.usefulGraph.Forward symbol.index order →
              generator.costAlong? order symbol = some cost := by
  have whole := well_formed_of_build built
  refine ⟨TokenCosts.charges_listed (terminal_names_distinct_of_build built),
    fun _ ordered => made_unless_overflow whole ordered, ?_⟩
  intro options firsts generator made symbol member derives
  obtain ⟨admitted, table, rfl⟩ := of_grammar_eq_ok made
  have prepared : (equipped grammar options table).Prepared := equipped_prepared whole table
  have signed := TokenCosts.check_terminals_iff.1 admitted.tokenCosts
  obtain ⟨greatest, answered, unbounded, dearest⟩ :=
    prepared.max_sentence_cost signed member derives
  refine ⟨greatest, answered, unbounded, ?_⟩
  rintro cost rfl
  have greatest := dearest cost rfl
  have straight : ¬ grammar.Recurs symbol :=
    fun recurs => Option.some_ne_none cost (unbounded.2 recurs)
  refine ⟨greatest, prepared.exists_order member straight, ?_⟩
  intro order ordered
  exact prepared.found_in_round signed member derives straight ordered greatest

section Pairs

/-- Two rules without recursion, and one with. -/
def pairDeclarations : Declarations where
  rules := [⟨"S", [⟨[.rule "T", .token "a"], none⟩, ⟨[.rule "T", .rule "T"], none⟩]⟩,
    ⟨"T", [⟨[.token "b"], none⟩, ⟨[.token "a", .token "b"], none⟩]⟩,
    ⟨"U", [⟨[.token "a", .rule "U"], none⟩, ⟨[.rule "T"], none⟩]⟩]
  tokens := ["a", "b"]

def pairs : Grammar where
  variant := .plain
  tokens := [⟨.terminal, 0, "a"⟩, ⟨.terminal, 1, "b"⟩]
  eof := ⟨.terminal, 2, "$"⟩
  nonterminals := [⟨.nonterminal, 0, "S"⟩, ⟨.nonterminal, 1, "T"⟩, ⟨.nonterminal, 2, "U"⟩,
    ⟨.nonterminal, 3, "S'"⟩]
  leading := [
    ⟨0, ⟨.nonterminal, 0, "S"⟩, [⟨.nonterminal, 1, "T"⟩, ⟨.terminal, 0, "a"⟩], none⟩,
    ⟨1, ⟨.nonterminal, 0, "S"⟩, [⟨.nonterminal, 1, "T"⟩, ⟨.nonterminal, 1, "T"⟩], none⟩,
    ⟨2, ⟨.nonterminal, 1, "T"⟩, [⟨.terminal, 1, "b"⟩], none⟩,
    ⟨3, ⟨.nonterminal, 1, "T"⟩, [⟨.terminal, 0, "a"⟩, ⟨.terminal, 1, "b"⟩], none⟩,
    ⟨4, ⟨.nonterminal, 2, "U"⟩, [⟨.terminal, 0, "a"⟩, ⟨.nonterminal, 2, "U"⟩], none⟩,
    ⟨5, ⟨.nonterminal, 2, "U"⟩, [⟨.nonterminal, 1, "T"⟩], none⟩]
  startProduction :=
    ⟨6, ⟨.nonterminal, 3, "S'"⟩, [⟨.nonterminal, 0, "S"⟩, ⟨.terminal, 2, "$"⟩], none⟩
  start := ⟨.nonterminal, 0, "S"⟩
  implicitRule := none
  precedences := ∅
  errorTexts := ∅

theorem pairs_built : pairDeclarations.build .plain = .ok pairs := by
  rfl

theorem pairs_admitted : Admitted pairs {} := by
  refine ⟨by decide, ?_, by decide +kernel, by decide +kernel, by decide +kernel⟩
  intro entry absent
  cases absent

theorem pairs_derive (symbol : Symbol) (member : symbol ∈ pairs.nonterminals)
    (productive : symbol.index ∈ pairs.productive) : pairs.DerivesTokens symbol :=
  (mem_productive_iff (well_formed_of_build pairs_built) member).1 productive

/-- The dearest text has a pair for each of two rules. The rule with recursion has none. -/
theorem dearest_text_of_pairs :
    pairDeclarations.build .plain = .ok pairs ∧ pairs.start ∈ pairs.nonterminals ∧
      pairs.DerivesTokens pairs.start ∧ pairs.DerivesTokens ⟨.nonterminal, 2, "U"⟩ ∧
      ∃ generator, (ofGrammar pairs {} none).outcome = .ok generator ∧
        (generator.maxSentenceCost pairs.start).outcome = .ok (some 4) ∧
        ¬ pairs.Recurs pairs.start ∧ pairs.DearestText {} pairs.start 4 ∧
        (generator.maxSentenceCost ⟨.nonterminal, 2, "U"⟩).outcome = .ok none ∧
        pairs.Recurs ⟨.nonterminal, 2, "U"⟩ := by
  have made := of_grammar_of_admitted (well_formed_of_build pairs_built) pairs_admitted none
  have derives := pairs_derive pairs.start (by decide) (by decide +kernel)
  have further := pairs_derive ⟨.nonterminal, 2, "U"⟩ (by decide) (by decide +kernel)
  obtain ⟨_, _, answers⟩ := dearest_texts_answered pairs_built
  obtain ⟨greatest, answered, unbounded, dearest⟩ :=
    answers _ none _ made pairs.start (by decide) derives
  obtain ⟨unanswered, refused, endless, _⟩ :=
    answers _ none _ made ⟨.nonterminal, 2, "U"⟩ (by decide) further
  have four : ((equipped pairs {} (FirstTable.settled pairs).1).maxSentenceCost
      pairs.start).outcome = .ok (some 4) := by decide +kernel
  have nothing : ((equipped pairs {} (FirstTable.settled pairs).1).maxSentenceCost
      ⟨.nonterminal, 2, "U"⟩).outcome = .ok none := by decide +kernel
  obtain rfl := Except.ok.inj (answered.symm.trans four)
  obtain rfl := Except.ok.inj (refused.symm.trans nothing)
  refine ⟨pairs_built, by decide, derives, further, _, made, four, ?_, (dearest 4 rfl).1, nothing,
    endless.1 rfl⟩
  exact fun recurs => Option.some_ne_none 4 (unbounded.2 recurs)

/-- Nothing recurs below the start, and its dearest text has two letters of the one kind. But if
such a letter costs more than any double, there is no generator to ask for that. -/
theorem dearest_text_not_answered :
    pairDeclarations.build .plain = .ok pairs ∧ pairs.start ∈ pairs.nonterminals ∧
      InOrder pairs (charging "a" doubleLimit) ∧ ¬ pairs.Recurs pairs.start ∧
      pairs.DearestText (charging "a" doubleLimit).tokenCosts pairs.start (2 * doubleLimit + 2) ∧
      (ofGrammar pairs (charging "a" doubleLimit) none).outcome = .error .numberTooLarge := by
  have whole := well_formed_of_build pairs_built
  have natural : (0 : Int) ≤ doubleLimit := Int.natCast_nonneg doubleLimit
  have ordered := charging_in_order pairs "a" natural
  have member : pairs.start ∈ pairs.nonterminals := by decide
  have derives := pairs_derive pairs.start member (by decide +kernel)
  have prepared : (equipped pairs (charging "a" doubleLimit)
      (FirstTable.settled pairs).1).Prepared := equipped_prepared whole _
  have straight : ¬ pairs.Recurs pairs.start := fun recurs =>
    absurd ((prepared.mem_unbounded_iff member derives).2 recurs) (by decide +kernel)
  have dearest := prepared.dearest_text ordered.tokenCosts member derives straight
  have entry : (equipped pairs (charging "a" doubleLimit) (FirstTable.settled pairs).1).dearestOf
      (equipped pairs (charging "a" doubleLimit) (FirstTable.settled pairs).1).outlook.dearest
      pairs.start = 2 * doubleLimit + 2 := by decide +kernel
  rw [entry] at dearest
  have overflow : pairs.checkCosts (charging "a" doubleLimit).tokenCosts =
      .error .numberTooLarge := by decide +kernel
  have failed := of_grammar_of_overflow whole ordered (Or.inr ⟨by decide +kernel, overflow⟩)
  exact ⟨pairs_built, member, ordered, straight, dearest, failed⟩

end Pairs

end Declarations

end GrammarKit
