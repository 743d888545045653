import GrammarKit.Proofs.Implicit.Analyses
import GrammarKit.Proofs.Implicit.Built

/-!
# What implicit tokens do not change

All analyses of the declared nonterminals and of their productions come out the same with implicit
tokens and without them, and so do the costs of cheapest sentences where both grammars have a
generator. With implicit tokens the cost of the implicit rule is unknown at first. So a token that
costs more than any double makes a sum overflow there, although the other grammar may know the costs
of all symbols beside the token.
-/

namespace GrammarKit

set_option autoImplicit false

namespace Scheme

/-- What two grammars agree on, of which one has the implicit rule of the scheme. -/
structure Unchanged (scheme : Scheme) (plain padded : Grammar) : Prop where
  terminals : padded.terminals = plain.terminals
  nonterminals : ∀ user ∈ scheme.users,
    plain.nonterminal user.index = .ok user ∧ padded.nonterminal user.index = .ok user
  first : ∃ own woven, (FirstTable.ofGrammar plain).outcome = .ok own ∧
    (FirstTable.ofGrammar padded).outcome = .ok woven ∧
    ∀ user ∈ scheme.users, ∃ first, own.ofSymbol user = .ok first ∧
      woven.ofSymbol user = .ok first ∧ own.isNullable user = .ok first.nullable ∧
      woven.isNullable user = .ok first.nullable
  follow : ∃ own woven, (FollowTable.ofGrammar plain).outcome = .ok own ∧
    (FollowTable.ofGrammar padded).outcome = .ok woven ∧
    ∀ user ∈ scheme.users, ∃ tokens, own.ofSymbol user = .ok tokens ∧
      woven.ofSymbol user = .ok tokens
  productive : ∀ user ∈ scheme.users,
    (user.index ∈ padded.productive ↔ user.index ∈ plain.productive)
  reachable : ∃ own woven, plain.reachable = .ok own ∧ padded.reachable = .ok woven ∧
    ∀ user ∈ scheme.users, (user.index ∈ woven ↔ user.index ∈ own)
  productions : ∀ production ∈ plain.leading,
    plain.production production.index = .ok production ∧
      padded.production production.index = .ok (scheme.weaveProduction production)
  no_more_productions : ∀ production ∈ padded.productions, production.lhs ∈ scheme.users →
    ∃ own ∈ plain.leading, production = scheme.weaveProduction own
  precedences : ∃ own woven, PrecedenceTable.ofGrammar plain = .ok own ∧
    PrecedenceTable.ofGrammar padded = .ok woven ∧
    ∀ production ∈ plain.leading, ∃ precedence, own.ofProduction production = .ok precedence ∧
      woven.ofProduction (scheme.weaveProduction production) = .ok precedence
  charges : ∀ charge : Symbol → Int, ∃ costs : TokenCosts,
    ∀ terminal ∈ plain.terminals, costs.of terminal = charge terminal
  generators : ∀ options, Generator.InOrder plain options →
    Generator.MadeUnlessOverflow plain options ∧ Generator.MadeUnlessOverflow padded options
  sentence_costs : ∀ options own woven,
    (Generator.ofGrammar plain options none).outcome = .ok own →
    (Generator.ofGrammar padded options none).outcome = .ok woven →
    ∀ user ∈ scheme.users, user.index ∈ plain.productive →
      ∃ least, own.minSentenceCost user = .ok least ∧ woven.minSentenceCost user = .ok least ∧
        plain.CheapestText options.tokenCosts user least

namespace Relates

variable {scheme : Scheme} {plain padded : Grammar} (related : scheme.Relates plain padded)

include related

theorem first_sets_agree : ∃ own woven, (FirstTable.ofGrammar plain).outcome = .ok own ∧
    (FirstTable.ofGrammar padded).outcome = .ok woven ∧
    ∀ user ∈ scheme.users, ∃ first, own.ofSymbol user = .ok first ∧
      woven.ofSymbol user = .ok first ∧ own.isNullable user = .ok first.nullable ∧
      woven.isNullable user = .ok first.nullable := by
  have whole := related.plain_whole
  have paddedWhole := related.padded_whole
  have exact := FirstTable.settled_exact whole
  have paddedExact := FirstTable.settled_exact paddedWhole
  refine ⟨_, _, FirstTable.of_grammar_outcome whole, FirstTable.of_grammar_outcome paddedWhole, ?_⟩
  intro user member
  have known : plain.Knows user := Or.inr (related.user_known_plain member)
  have paddedKnown : padded.Knows user := Or.inr (related.user_known_padded member)
  refine ⟨_, FirstTable.of_symbol_eq whole exact.size known, ?_,
    FirstTable.is_nullable_eq whole exact.size known, ?_⟩
  · rw [← related.first_entry_eq member exact paddedExact]
    exact FirstTable.of_symbol_eq paddedWhole paddedExact.size paddedKnown
  · rw [← related.first_entry_eq member exact paddedExact]
    exact FirstTable.is_nullable_eq paddedWhole paddedExact.size paddedKnown

theorem follow_sets_agree : ∃ own woven, (FollowTable.ofGrammar plain).outcome = .ok own ∧
    (FollowTable.ofGrammar padded).outcome = .ok woven ∧
    ∀ user ∈ scheme.users, ∃ tokens, own.ofSymbol user = .ok tokens ∧
      woven.ofSymbol user = .ok tokens := by
  obtain ⟨own, found, exact⟩ := FollowTable.of_grammar_outcome related.plain_whole
  obtain ⟨woven, paddedFound, paddedExact⟩ := FollowTable.of_grammar_outcome related.padded_whole
  refine ⟨own, woven, found, paddedFound, ?_⟩
  intro user member
  refine ⟨_, FollowTable.of_symbol_eq related.plain_whole exact.size
    (related.user_known_plain member), ?_⟩
  rw [← related.follow_tokens_eq member exact paddedExact]
  exact FollowTable.of_symbol_eq related.padded_whole paddedExact.size
    (related.user_known_padded member)

theorem productive_agrees {user : Symbol} (member : user ∈ scheme.users) :
    user.index ∈ padded.productive ↔ user.index ∈ plain.productive := by
  rw [Grammar.mem_productive_iff related.padded_whole (related.user_known_padded member),
    Grammar.mem_productive_iff related.plain_whole (related.user_known_plain member)]
  exact related.derives_tokens_iff member

theorem reachable_agrees : ∃ own woven, plain.reachable = .ok own ∧
    padded.reachable = .ok woven ∧
    ∀ user ∈ scheme.users, (user.index ∈ woven ↔ user.index ∈ own) := by
  obtain ⟨own, found, reached⟩ := Grammar.reachable_exact related.plain_whole
  obtain ⟨woven, paddedFound, paddedReached⟩ := Grammar.reachable_exact related.padded_whole
  refine ⟨own, woven, found, paddedFound, ?_⟩
  intro user member
  rw [paddedReached user (related.user_known_padded member),
    reached user (related.user_known_plain member)]
  exact related.reaches_iff member

theorem signed_iff {costs : TokenCosts} : costs.Signed padded ↔ costs.Signed plain := by
  unfold TokenCosts.Signed
  rw [related.same_terminals]

theorem generators_made {options : GeneratorOptions} (ordered : Generator.InOrder plain options) :
    Generator.MadeUnlessOverflow plain options ∧ Generator.MadeUnlessOverflow padded options := by
  constructor
  · exact Generator.made_unless_overflow related.plain_whole ordered
  · apply Generator.made_unless_overflow related.padded_whole
    exact ⟨ordered.budget, ordered.weights, related.signed_iff.2 ordered.tokenCosts⟩

theorem sentence_costs_agree {options : GeneratorOptions} {own woven : Generator}
    (made : (Generator.ofGrammar plain options none).outcome = .ok own)
    (paddedMade : (Generator.ofGrammar padded options none).outcome = .ok woven)
    {user : Symbol} (member : user ∈ scheme.users) (productive : user.index ∈ plain.productive) :
    ∃ least, own.minSentenceCost user = .ok least ∧ woven.minSentenceCost user = .ok least ∧
      plain.CheapestText options.tokenCosts user least := by
  have known := related.user_known_plain member
  have derives := (Grammar.mem_productive_iff related.plain_whole known).1 productive
  obtain ⟨least, asked, cheapest⟩ :=
    Generator.min_sentence_cost_exact related.plain_whole made known derives
  obtain ⟨paddedLeast, paddedAsked, paddedCheapest⟩ :=
    Generator.min_sentence_cost_exact related.padded_whole paddedMade
      (related.user_known_padded member) ((related.derives_tokens_iff member).2 derives)
  have signed := Generator.signed_of_made paddedMade
  obtain rfl := cheapest.unique ((related.cheapest_text_iff member signed).1 paddedCheapest)
  exact ⟨least, asked, paddedAsked, cheapest⟩

variable (plainNumbered : plain.ProductionsNumbered) (paddedNumbered : padded.ProductionsNumbered)

include plainNumbered paddedNumbered

theorem precedences_agree : ∃ own woven, PrecedenceTable.ofGrammar plain = .ok own ∧
    PrecedenceTable.ofGrammar padded = .ok woven ∧
    ∀ production ∈ plain.leading, ∃ precedence, own.ofProduction production = .ok precedence ∧
      woven.ofProduction (scheme.weaveProduction production) = .ok precedence := by
  refine ⟨_, _, PrecedenceTable.of_grammar_eq related.plain_whole,
    PrecedenceTable.of_grammar_eq related.padded_whole, ?_⟩
  intro production member
  refine ⟨_, PrecedenceTable.of_production_eq plainNumbered (List.mem_append_left _ member), ?_⟩
  rw [← related.production_precedence_eq]
  exact PrecedenceTable.of_production_eq paddedNumbered (related.woven_mem member)

theorem unchanged (distinct : (plain.terminals.map (·.name)).Nodup) :
    scheme.Unchanged plain padded where
  terminals := related.same_terminals
  nonterminals := by
    intro user member
    constructor
    · exact require_eq_ok_iff.2 (item_at_index related.plain_whole.nonterminals_numbered
        (related.user_known_plain member))
    · exact require_eq_ok_iff.2 (item_at_index related.padded_whole.nonterminals_numbered
        (related.user_known_padded member))
  first := related.first_sets_agree
  follow := related.follow_sets_agree
  productive := fun user member => related.productive_agrees member
  reachable := related.reachable_agrees
  productions := by
    intro production member
    constructor
    · exact require_eq_ok_iff.2 (plainNumbered.item (List.mem_append_left _ member))
    · exact require_eq_ok_iff.2 (paddedNumbered.item (related.woven_mem member))
  no_more_productions := fun production member user => related.user_production member user
  precedences := related.precedences_agree plainNumbered paddedNumbered
  charges := TokenCosts.charges_listed distinct
  generators := fun options ordered => related.generators_made ordered
  sentence_costs := fun options own woven made paddedMade user member productive =>
    related.sentence_costs_agree made paddedMade member productive

end Relates

end Scheme

namespace Declarations

/-- With implicit tokens all analyses of the declared rules come out the same. -/
theorem implicit_tokens_leave_analyses {declarations : Declarations} {names : List String}
    {eco : Grammar} (listed : declarations.implicitTokens = some names) (filled : names ≠ [])
    (built : declarations.build .eco = .ok eco) :
    ∃ plain scheme, declarations.withoutImplicitTokens.build .plain = .ok plain ∧
      scheme.users = declarations.ruleSymbols ∧ Scheme.Unchanged scheme plain eco := by
  have implicit : declarations.HasImplicit names := ⟨listed, filled⟩
  obtain ⟨plain, scheme, without, related, users, _⟩ := implicit.grammars built
  refine ⟨plain, scheme, without, users, ?_⟩
  exact related.unchanged (productions_numbered_of_build without)
    (productions_numbered_of_build built) (terminal_names_distinct_of_build without)

section Letter

open Generator

/-- A single rule for a single letter. -/
def letterDeclarations : Declarations where
  rules := [⟨"S", [⟨[.token "a"], none⟩]⟩]
  tokens := ["a", "w"]
  implicitTokens := some ["w"]

def letterEco : Grammar where
  variant := .eco
  tokens := [⟨.terminal, 0, "a"⟩, ⟨.terminal, 1, "w"⟩]
  eof := ⟨.terminal, 2, "$"⟩
  nonterminals := [⟨.nonterminal, 0, "S"⟩, ⟨.nonterminal, 1, "~"⟩, ⟨.nonterminal, 2, "S'"⟩]
  leading := [
    ⟨0, ⟨.nonterminal, 0, "S"⟩, [⟨.terminal, 0, "a"⟩, ⟨.nonterminal, 1, "~"⟩], none⟩,
    ⟨1, ⟨.nonterminal, 1, "~"⟩, [⟨.terminal, 1, "w"⟩, ⟨.nonterminal, 1, "~"⟩], none⟩,
    ⟨2, ⟨.nonterminal, 1, "~"⟩, [], none⟩]
  startProduction := ⟨3, ⟨.nonterminal, 2, "S'"⟩,
    [⟨.nonterminal, 1, "~"⟩, ⟨.nonterminal, 0, "S"⟩, ⟨.terminal, 2, "$"⟩], none⟩
  start := ⟨.nonterminal, 0, "S"⟩
  implicitRule := some ⟨.nonterminal, 1, "~"⟩
  precedences := ∅
  errorTexts := ∅

def letterPlain : Grammar where
  variant := .plain
  tokens := [⟨.terminal, 0, "a"⟩, ⟨.terminal, 1, "w"⟩]
  eof := ⟨.terminal, 2, "$"⟩
  nonterminals := [⟨.nonterminal, 0, "S"⟩, ⟨.nonterminal, 1, "S'"⟩]
  leading := [⟨0, ⟨.nonterminal, 0, "S"⟩, [⟨.terminal, 0, "a"⟩], none⟩]
  startProduction := ⟨1, ⟨.nonterminal, 1, "S'"⟩,
    [⟨.nonterminal, 0, "S"⟩, ⟨.terminal, 2, "$"⟩], none⟩
  start := ⟨.nonterminal, 0, "S"⟩
  implicitRule := none
  precedences := ∅
  errorTexts := ∅

theorem letter_eco_built : letterDeclarations.build .eco = .ok letterEco := by
  rfl

theorem letter_plain_built :
    letterDeclarations.withoutImplicitTokens.build .plain = .ok letterPlain := by
  rfl

/-- The letter costs this much, and every other token one. -/
def letterOptions (value : Int) : GeneratorOptions where
  tokenCosts := { listed := ⟨[("a", value)], by simp⟩ }

theorem letter_in_order (grammar : Grammar) {value : Int} (natural : 0 ≤ value) :
    InOrder grammar (letterOptions value) := charging_in_order grammar "a" natural

theorem letter_admitted {grammar : Grammar} {value : Int} (natural : 0 ≤ value)
    (expansions : grammar.checkExpansions = .ok ())
    (costs : grammar.checkCosts (letterOptions value).tokenCosts = .ok ()) :
    Admitted grammar (letterOptions value) where
  budget := (letter_in_order grammar natural).budget
  weights := (letter_in_order grammar natural).weights
  expansions := expansions
  tokenCosts := TokenCosts.check_terminals_iff.2 (letter_in_order grammar natural).tokenCosts
  costs := costs

theorem letter_analyses :
    letterDeclarations.implicitTokens = some ["w"] ∧ ["w"] ≠ [] ∧
      letterDeclarations.build .eco = .ok letterEco ∧
      (∃ scheme, Scheme.users scheme = letterDeclarations.ruleSymbols ∧
        scheme.Unchanged letterPlain letterEco) ∧
      ∃ own woven, (ofGrammar letterPlain (letterOptions 3) none).outcome = .ok own ∧
        (ofGrammar letterEco (letterOptions 3) none).outcome = .ok woven ∧
        own.minSentenceCost letterPlain.start = .ok 3 ∧
        woven.minSentenceCost letterPlain.start = .ok 3 := by
  obtain ⟨plain, scheme, built, users, same⟩ :=
    implicit_tokens_leave_analyses rfl (by decide) letter_eco_built
  obtain rfl : letterPlain = plain := Except.ok.inj (letter_plain_built.symm.trans built)
  have made := of_grammar_of_admitted (well_formed_of_build letter_plain_built)
    (letter_admitted (by decide : (0 : Int) ≤ 3) rfl (by decide +kernel)) none
  have paddedMade := of_grammar_of_admitted (well_formed_of_build letter_eco_built)
    (letter_admitted (by decide : (0 : Int) ≤ 3) (by decide +kernel) (by decide +kernel)) none
  have start : letterPlain.start ∈ scheme.users := by
    rw [users]
    decide
  obtain ⟨least, own, woven, _⟩ :=
    same.sentence_costs _ _ _ made paddedMade letterPlain.start start (by decide +kernel)
  have cheapest : least = 3 := Except.ok.inj (own.symm.trans (by decide +kernel))
  subst cheapest
  exact ⟨rfl, by decide, letter_eco_built, ⟨scheme, users, same⟩, _, _, made, paddedMade, own,
    woven⟩

/-- With a letter that costs more than any double there is a cheapest sentence of this cost only as
long as there are no implicit tokens. -/
theorem heavy_letter_overflows_with_implicit_tokens :
    letterDeclarations.implicitTokens = some ["w"] ∧
      letterDeclarations.build .eco = .ok letterEco ∧
      letterDeclarations.withoutImplicitTokens.build .plain = .ok letterPlain ∧
      letterPlain.start ∈ letterDeclarations.ruleSymbols ∧
      letterPlain.start.index ∈ letterPlain.productive ∧
      InOrder letterEco (letterOptions doubleLimit) ∧
      (ofGrammar letterEco (letterOptions doubleLimit) none).outcome = .error .numberTooLarge ∧
      ∃ own, (ofGrammar letterPlain (letterOptions doubleLimit) none).outcome = .ok own ∧
        own.minSentenceCost letterPlain.start = .ok doubleLimit := by
  have natural : (0 : Int) ≤ doubleLimit := Int.natCast_nonneg doubleLimit
  have overflow : letterEco.checkCosts (letterOptions doubleLimit).tokenCosts =
      .error .numberTooLarge := by
    decide +kernel
  have failed := of_grammar_of_overflow (well_formed_of_build letter_eco_built)
    (letter_in_order letterEco natural) (Or.inr ⟨by decide +kernel, overflow⟩)
  have made := of_grammar_of_admitted (well_formed_of_build letter_plain_built)
    (letter_admitted natural rfl (by decide +kernel)) none
  exact ⟨rfl, letter_eco_built, letter_plain_built, by decide, by decide +kernel,
    letter_in_order letterEco natural, failed, _, made, by decide +kernel⟩

end Letter

end Declarations

end GrammarKit
