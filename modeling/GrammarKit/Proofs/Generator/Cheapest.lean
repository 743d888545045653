import GrammarKit.Proofs.Cost.Overflow
import GrammarKit.Proofs.Generator.Needs
import GrammarKit.Sentence.Extremes

/-!
# The cost of a cheapest sentence

Options that are in order make a generator unless the sums overflow, by which expansions are counted
or costs are found. A generator answers with the least cost of the texts that a nonterminal derives.
Where the empty text is among them it is the cheapest one. Otherwise the table of costs has the
answer, since every text is the frontier of a complete tree.
-/

namespace GrammarKit

set_option autoImplicit false

open DerivationTree

namespace Grammar

variable {grammar : Grammar} {costs : TokenCosts} {symbol : Symbol}

theorem Generates.terminals_known (whole : grammar.WellFormed) (known : grammar.Knows symbol)
    {text : List Symbol} (generated : grammar.Generates symbol text) :
    ∀ token ∈ text, token ∈ grammar.terminals := by
  intro token among
  have inside := generated.2.known whole (.singleton known) token among
  exact whole.terminal_known inside (generated.1 token among)

def textCost (costs : TokenCosts) (text : List Symbol) : Int := (text.map costs.of).sum

/-- The least cost of the texts of a symbol, which has to have one. -/
def CheapestText (grammar : Grammar) (costs : TokenCosts) (symbol : Symbol) (least : Int) : Prop :=
  (∃ text, grammar.Generates symbol text ∧ textCost costs text = least) ∧
    ∀ text, grammar.Generates symbol text → least ≤ textCost costs text

theorem CheapestText.unique {left right : Int} (first : grammar.CheapestText costs symbol left)
    (second : grammar.CheapestText costs symbol right) : left = right := by
  obtain ⟨⟨leftText, leftDerived, rfl⟩, leftLeast⟩ := first
  obtain ⟨⟨rightText, rightDerived, rfl⟩, rightLeast⟩ := second
  exact Int.le_antisymm (leftLeast rightText rightDerived) (rightLeast leftText leftDerived)

theorem CheapestText.of_least_cost (whole : grammar.WellFormed) {least : Cost}
    (lowest : LeastCost grammar costs symbol least) :
    grammar.CheapestText costs symbol least.tokens := by
  obtain ⟨⟨tree, complete, rfl, rfl⟩, below⟩ := lowest
  refine ⟨⟨tree.leaves, ⟨complete.leaves_are_terminals, complete.derives⟩, rfl⟩, ?_⟩
  intro text generated
  obtain ⟨other, otherComplete, start, rfl⟩ :=
    tree_of_derivation whole generated.2 generated.1
  rcases below other otherComplete start with less | ⟨same, _⟩
  · exact Int.le_of_lt less
  · exact Int.le_of_eq same

theorem CheapestText.of_vanishing (whole : grammar.WellFormed) (signed : costs.Signed grammar)
    (known : grammar.Knows symbol) (vanishes : grammar.Derives [symbol] []) :
    grammar.CheapestText costs symbol 0 := by
  refine ⟨⟨[], ⟨by simp, vanishes⟩, rfl⟩, ?_⟩
  intro text generated
  exact signed.sum_nonneg (generated.terminals_known whole known)

end Grammar

namespace Generator

variable {grammar : Grammar} {options : GeneratorOptions} {table : FirstTable} {symbol : Symbol}

/-- The budget and all weights and costs are natural. -/
structure InOrder (grammar : Grammar) (options : GeneratorOptions) : Prop where
  budget : 0 ≤ options.maxExpansions
  weights : ∀ entry ∈ options.weights.entries, entry.2.isNegative = false
  tokenCosts : options.tokenCosts.Signed grammar

/-- One token has a cost of its own, and every other token costs one. -/
def charging (name : String) (value : Int) : GeneratorOptions where
  tokenCosts := { listed := ⟨[(name, value)], by simp⟩ }

theorem charging_in_order (grammar : Grammar) (name : String) {value : Int} (natural : 0 ≤ value) :
    InOrder grammar (charging name value) where
  budget := Int.natCast_nonneg 100
  weights := by
    intro entry absent
    cases absent
  tokenCosts := by
    intro terminal _
    by_cases same : name = terminal.name
    · simpa [TokenCosts.of, charging, Register.find?, same] using natural
    · simp [TokenCosts.of, charging, Register.find?, same]

def Overflows (grammar : Grammar) (options : GeneratorOptions) : Prop :=
  grammar.SumsOverflow .free Cost.zero ∨ grammar.SumsOverflow options.tokenCosts ⟨0, 1⟩

theorem of_grammar_of_overflow (whole : grammar.WellFormed) (ordered : InOrder grammar options)
    (failed : grammar.checkExpansions = .error .numberTooLarge ∨
      grammar.checkExpansions = .ok () ∧
        grammar.checkCosts options.tokenCosts = .error .numberTooLarge) :
    (ofGrammar grammar options none).outcome = .error .numberTooLarge := by
  have budget : ¬ options.maxExpansions < 0 := not_lt.2 ordered.budget
  have weights : ¬ (options.weights.entries.any fun entry => entry.2.isNegative) = true := by
    simpa using ordered.weights
  have tokenCosts := TokenCosts.check_terminals_iff.2 ordered.tokenCosts
  unfold ofGrammar
  dsimp only
  rw [if_neg budget, if_neg weights, tokenCosts]
  refine (Noted.outcome_bind_ok (FirstTable.of_grammar_outcome whole)).trans ?_
  rcases failed with expansions | ⟨expansions, costs⟩
  · rw [expansions]
    rfl
  · rw [expansions, costs]
    rfl

theorem of_grammar_cases (whole : grammar.WellFormed) (ordered : InOrder grammar options) :
    Admitted grammar options ∨
      (ofGrammar grammar options none).outcome = .error .numberTooLarge ∧
        Overflows grammar options := by
  have expansionSums : grammar.checkExpansions = .ok () ∨
      grammar.checkExpansions = .error .numberTooLarge ∧ grammar.SumsOverflow .free Cost.zero :=
    Grammar.check_sums_cases whole (Grammar.free_signed grammar) (Int.le_refl 0)
  have costSums : grammar.checkCosts options.tokenCosts = .ok () ∨
      grammar.checkCosts options.tokenCosts = .error .numberTooLarge ∧
        grammar.SumsOverflow options.tokenCosts ⟨0, 1⟩ :=
    Grammar.check_sums_cases whole ordered.tokenCosts (Int.le_refl 0)
  rcases expansionSums with expansions | ⟨expansions, overflow⟩
  · rcases costSums with costs | ⟨costs, overflow⟩
    · left
      exact ⟨ordered.budget, ordered.weights, expansions,
        TokenCosts.check_terminals_iff.2 ordered.tokenCosts, costs⟩
    · right
      exact ⟨of_grammar_of_overflow whole ordered (Or.inr ⟨expansions, costs⟩), Or.inr overflow⟩
  · right
    exact ⟨of_grammar_of_overflow whole ordered (Or.inl expansions), Or.inl overflow⟩

/-- There is a generator, or the sums have overflowed. -/
def MadeUnlessOverflow (grammar : Grammar) (options : GeneratorOptions) : Prop :=
  (∃ generator, (ofGrammar grammar options none).outcome = .ok generator) ∨
    (ofGrammar grammar options none).outcome = .error .numberTooLarge ∧ Overflows grammar options

theorem made_unless_overflow (whole : grammar.WellFormed) (ordered : InOrder grammar options) :
    MadeUnlessOverflow grammar options := by
  rcases of_grammar_cases whole ordered with admitted | failed
  · exact Or.inl ⟨_, of_grammar_of_admitted whole admitted none⟩
  · exact Or.inr failed

/-- All tables of the generator are exact, also a table of FIRST sets that was handed over. -/
structure Exact (generator : Generator) : Prop extends Prepared generator where
  costs : generator.costs = CostTable.ofGrammar generator.grammar generator.tokenCosts
  signed : generator.tokenCosts.Signed generator.grammar
  firsts : generator.firsts.Exact generator.grammar

theorem equipped_exact (whole : grammar.WellFormed) (admitted : Admitted grammar options)
    (firsts : table.Exact grammar) : (equipped grammar options table).Exact where
  toPrepared := equipped_prepared whole table
  costs := rfl
  signed := TokenCosts.check_terminals_iff.1 admitted.tokenCosts
  firsts := firsts

section Exactness

variable {generator : Generator}

theorem exact_of_made {firsts : Option FirstTable} (whole : grammar.WellFormed)
    (sound : ∀ table ∈ firsts, table.Exact grammar)
    (made : (ofGrammar grammar options firsts).outcome = .ok generator) :
    ∃ table, generator = equipped grammar options table ∧ generator.Exact := by
  have admitted := (of_grammar_eq_ok made).1
  obtain rfl := Except.ok.inj ((of_grammar_of_admitted whole admitted firsts).symm.trans made)
  refine ⟨_, rfl, equipped_exact whole admitted ?_⟩
  cases firsts with
  | some table => exact sound table rfl
  | none => exact FirstTable.settled_exact whole

theorem Exact.nullable_eq (exact : generator.Exact) (known : generator.grammar.Knows symbol) :
    generator.firsts.isNullable symbol = .ok (generator.firsts.entry symbol).nullable :=
  FirstTable.is_nullable_eq exact.whole exact.firsts.size known

theorem Exact.cost_found (exact : generator.Exact) (member : symbol ∈ generator.grammar.nonterminals)
    (derives : generator.grammar.DerivesTokens symbol) :
    ∃ cost, generator.costs.costAt symbol.index = some cost := by
  obtain ⟨tree, complete, rfl⟩ := (derives_tokens_iff exact.whole).1 derives
  rw [exact.costs]
  exact CostTable.cost_at_of_complete exact.whole exact.signed complete member

theorem Exact.cost_least (exact : generator.Exact) (member : symbol ∈ generator.grammar.nonterminals)
    {cost : Cost} (entry : generator.costs.costAt symbol.index = some cost) :
    LeastCost generator.grammar generator.tokenCosts symbol cost := by
  rw [exact.costs] at entry
  exact CostTable.least_of_cost_at exact.whole exact.signed member entry

theorem Exact.min_sentence_cost (exact : generator.Exact)
    (member : symbol ∈ generator.grammar.nonterminals)
    (derives : generator.grammar.DerivesTokens symbol) :
    ∃ least, generator.minSentenceCost symbol = .ok least ∧
      generator.grammar.CheapestText generator.tokenCosts symbol least := by
  have known : generator.grammar.Knows symbol := Or.inr member
  have checked := (exact.check_iff member).2 derives
  unfold minSentenceCost
  rw [checked, exact.nullable_eq known]
  cases vanishes : (generator.firsts.entry symbol).nullable with
  | true =>
      refine ⟨0, rfl, ?_⟩
      exact .of_vanishing exact.whole exact.signed known
        ((exact.firsts.entry_vanishes_iff known).1 vanishes)
  | false =>
      obtain ⟨cost, found⟩ := exact.cost_found member derives
      refine ⟨cost.tokens, ?_, .of_least_cost exact.whole (exact.cost_least member found)⟩
      change (require (generator.costs.costAt symbol.index) _ >>= _) = _
      rw [found]
      rfl

end Exactness

section Made

variable {generator : Generator} (whole : grammar.WellFormed)
  (made : (ofGrammar grammar options none).outcome = .ok generator)

include made

theorem signed_of_made : options.tokenCosts.Signed grammar :=
  TokenCosts.check_terminals_iff.1 (of_grammar_eq_ok made).1.tokenCosts

include whole

theorem min_sentence_cost_exact (member : symbol ∈ grammar.nonterminals)
    (derives : grammar.DerivesTokens symbol) :
    ∃ least, generator.minSentenceCost symbol = .ok least ∧
      grammar.CheapestText options.tokenCosts symbol least := by
  have none_given : ∀ table ∈ (none : Option FirstTable), table.Exact grammar := by
    intro table absent
    cases absent
  obtain ⟨table, rfl, exact⟩ := exact_of_made whole none_given made
  exact exact.min_sentence_cost member derives

end Made

end Generator

end GrammarKit
