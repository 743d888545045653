import GrammarKit.Proofs.Generator.CheapestSentence
import GrammarKit.Proofs.Monotone
import GrammarKit.Proofs.Build.Represented

/-!
# Cheapest texts

A generator answers with a text of the nonterminal, and with the cost of this very text. No text of
the nonterminal costs less. The answer comes by one of two ways, the empty text of a nullable
nonterminal or the rounds that follow the cheapest productions. Rounds end also where rules lead in
circles and tokens cost nothing, as among productions of one cost those with fewer expansions below
them are cheaper.
-/

namespace GrammarKit

set_option autoImplicit false

namespace Generator

variable {generator : Generator} {symbol : Symbol}

theorem Exact.cheapest_text (exact : generator.Exact)
    (member : symbol ∈ generator.grammar.nonterminals)
    (derives : generator.grammar.DerivesTokens symbol) :
    ∃ text, generator.minSentence symbol = .ok text ∧ generator.grammar.Generates symbol text ∧
      generator.minSentenceCost symbol =
        .ok (Grammar.textCost generator.tokenCosts text) ∧
      (∀ other, generator.grammar.Generates symbol other →
        Grammar.textCost generator.tokenCosts text ≤
          Grammar.textCost generator.tokenCosts other) ∧
      (text = [] ∨ generator.Unrolls symbol text) := by
  obtain ⟨text, answered, generated, cheapest, unrolls⟩ := exact.min_sentence member derives
  obtain ⟨least, costed, lowest⟩ := exact.min_sentence_cost member derives
  obtain rfl := lowest.unique cheapest
  exact ⟨text, answered, generated, costed, cheapest.2, unrolls⟩

end Generator

namespace Declarations

open Generator Grammar

variable {declarations : Declarations} {variant : Variant} {grammar : Grammar}

/-- However tokens are charged, a generator is there unless the sums overflow. For each nonterminal
that derives some text it finds a cheapest one and its cost. -/
theorem cheapest_texts_answered (built : declarations.build variant = .ok grammar) :
    (∀ charge : Symbol → Int, ∃ costs : TokenCosts,
      ∀ terminal ∈ grammar.terminals, costs.of terminal = charge terminal) ∧
    (∀ options, InOrder grammar options → MadeUnlessOverflow grammar options) ∧
    ∀ options firsts generator, (∀ table ∈ firsts, FirstTable.Exact grammar table) →
      (ofGrammar grammar options firsts).outcome = .ok generator →
      ∀ symbol ∈ grammar.nonterminals, grammar.DerivesTokens symbol →
        ∃ text, generator.minSentence symbol = .ok text ∧ grammar.Generates symbol text ∧
          generator.minSentenceCost symbol = .ok (textCost options.tokenCosts text) ∧
          (∀ other, grammar.Generates symbol other →
            textCost options.tokenCosts text ≤ textCost options.tokenCosts other) ∧
          (text = [] ∨ generator.Unrolls symbol text) := by
  have whole := well_formed_of_build built
  refine ⟨TokenCosts.charges_listed (terminal_names_distinct_of_build built),
    fun _ ordered => made_unless_overflow whole ordered, ?_⟩
  intro options firsts generator sound made symbol member derives
  obtain ⟨table, rfl, exact⟩ := exact_of_made whole sound made
  exact exact.cheapest_text member derives

section Circle

/-- Two rules that lead to each other, and to the tokens in the end. -/
def circleDeclarations : Declarations where
  rules := [⟨"S", [⟨[.rule "T"], none⟩, ⟨[.token "b", .token "b"], none⟩]⟩,
    ⟨"T", [⟨[.rule "S"], none⟩, ⟨[.token "a", .token "b"], none⟩]⟩]
  tokens := ["a", "b"]

def circle : Grammar where
  variant := .plain
  tokens := [⟨.terminal, 0, "a"⟩, ⟨.terminal, 1, "b"⟩]
  eof := ⟨.terminal, 2, "$"⟩
  nonterminals := [⟨.nonterminal, 0, "S"⟩, ⟨.nonterminal, 1, "T"⟩, ⟨.nonterminal, 2, "S'"⟩]
  leading := [
    ⟨0, ⟨.nonterminal, 0, "S"⟩, [⟨.nonterminal, 1, "T"⟩], none⟩,
    ⟨1, ⟨.nonterminal, 0, "S"⟩, [⟨.terminal, 1, "b"⟩, ⟨.terminal, 1, "b"⟩], none⟩,
    ⟨2, ⟨.nonterminal, 1, "T"⟩, [⟨.nonterminal, 0, "S"⟩], none⟩,
    ⟨3, ⟨.nonterminal, 1, "T"⟩, [⟨.terminal, 0, "a"⟩, ⟨.terminal, 1, "b"⟩], none⟩]
  startProduction :=
    ⟨4, ⟨.nonterminal, 2, "S'"⟩, [⟨.nonterminal, 0, "S"⟩, ⟨.terminal, 2, "$"⟩], none⟩
  start := ⟨.nonterminal, 0, "S"⟩
  implicitRule := none
  precedences := ∅
  errorTexts := ∅

theorem circle_built : circleDeclarations.build .plain = .ok circle := by
  rfl

theorem circle_admitted : Admitted circle (charging "a" 0) := by
  refine ⟨by decide, ?_, by decide +kernel, by decide +kernel, by decide +kernel⟩
  intro entry absent
  cases absent

/-- Going round in the circle costs nothing, and neither does the first token. -/
theorem cheapest_text_of_circle :
    circleDeclarations.build .plain = .ok circle ∧ circle.start ∈ circle.nonterminals ∧
      circle.DerivesTokens circle.start ∧
      ∃ generator, (ofGrammar circle (charging "a" 0) none).outcome = .ok generator ∧
        generator.minSentence circle.start =
          .ok [⟨.terminal, 0, "a"⟩, ⟨.terminal, 1, "b"⟩] ∧
        generator.minSentenceCost circle.start = .ok 1 ∧
        ∀ text, circle.Generates circle.start text →
          1 ≤ textCost (charging "a" 0).tokenCosts text := by
  have whole := well_formed_of_build circle_built
  have made := of_grammar_of_admitted whole circle_admitted none
  have member : circle.start ∈ circle.nonterminals := by decide
  have derives := (mem_productive_iff whole member).1
    (show circle.start.index ∈ circle.productive by decide +kernel)
  obtain ⟨_, _, answers⟩ := cheapest_texts_answered circle_built
  obtain ⟨text, answered, _, costed, least, _⟩ :=
    answers _ none _ (by simp) made circle.start member derives
  have found : (equipped circle (charging "a" 0) (FirstTable.settled circle).1).minSentence
      circle.start = .ok [⟨.terminal, 0, "a"⟩, ⟨.terminal, 1, "b"⟩] := by decide +kernel
  obtain rfl := Except.ok.inj (answered.symm.trans found)
  exact ⟨circle_built, member, derives, _, made, found, costed, least⟩

end Circle

section Repetition

def repetitionDeclarations : Declarations where
  rules := [⟨"S", [⟨[.token "a", .rule "S"], none⟩, ⟨[.token "b"], none⟩]⟩]
  tokens := ["a", "b"]

theorem repetition_built : repetitionDeclarations.build .plain = .ok recursionFirst := by
  rfl

/-- The cheapest text is a single token that costs one, but there is no generator to ask for it if
the letter of the recursion costs more than any double. -/
theorem cheapest_text_not_answered :
    repetitionDeclarations.build .plain = .ok recursionFirst ∧
      recursionFirst.start ∈ recursionFirst.nonterminals ∧
      InOrder recursionFirst (charging "a" doubleLimit) ∧
      recursionFirst.CheapestText (charging "a" doubleLimit).tokenCosts recursionFirst.start 1 ∧
      (ofGrammar recursionFirst (charging "a" doubleLimit) none).outcome =
        .error .numberTooLarge := by
  have whole := well_formed_of_build repetition_built
  have natural : (0 : Int) ≤ doubleLimit := Int.natCast_nonneg doubleLimit
  have ordered := charging_in_order recursionFirst "a" natural
  have member : recursionFirst.start ∈ recursionFirst.nonterminals := by decide
  have entry : (CostTable.ofGrammar recursionFirst
      (charging "a" doubleLimit).tokenCosts).costAt 0 = some ⟨1, 1⟩ := by decide +kernel
  have least := CostTable.least_of_cost_at whole ordered.tokenCosts member entry
  have overflow : recursionFirst.checkCosts (charging "a" doubleLimit).tokenCosts =
      .error .numberTooLarge := by decide +kernel
  have failed := of_grammar_of_overflow whole ordered (Or.inr ⟨by decide +kernel, overflow⟩)
  exact ⟨repetition_built, member, ordered, .of_least_cost whole least, failed⟩

end Repetition

end Declarations

end GrammarKit
