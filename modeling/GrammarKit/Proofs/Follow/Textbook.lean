import GrammarKit.Proofs.Build.WellFormed
import GrammarKit.Proofs.Follow.Exact

/-!
# FOLLOW sets of built grammars

In a grammar built from declarations the end of the input is derived right behind the start symbol.
When every nonterminal is reachable as well, the FOLLOW sets are those of the textbook: what follows
a nonterminal in the forms derived from the augmented start.
-/

namespace GrammarKit

set_option autoImplicit false

/-- An answer that lists the terminals of which something is true. -/
def Grammar.Lists (grammar : Grammar) (answer : Except Fault IndexSet) (related : Symbol → Prop) :
    Prop :=
  ∃ indices, answer = .ok indices ∧
    (∀ terminal ∈ grammar.terminals, terminal.index ∈ indices ↔ related terminal) ∧
    ∀ index ∈ indices, ∃ terminal ∈ grammar.terminals, terminal.index = index

/-- The augmented start derives a form in which the terminal stands right behind the symbol. -/
def Grammar.FollowsFromStart (grammar : Grammar) (symbol terminal : Symbol) : Prop :=
  ∃ before after,
    grammar.Derives [grammar.augmentedStart] (before ++ symbol :: terminal :: after)

namespace Grammar

variable {grammar : Grammar}

theorem Adjacent.from_start {symbol terminal : Symbol} (adjacent : grammar.Adjacent symbol terminal)
    (reachable : ∀ origin ∈ grammar.nonterminals, grammar.Reaches grammar.augmentedStart origin) :
    grammar.FollowsFromStart symbol terminal := by
  obtain ⟨origin, member, left, right, derivation⟩ := adjacent
  obtain ⟨before, after, whole⟩ := (reachable origin member).derives_around derivation
  exact ⟨before ++ left, right ++ after, by simpa using whole⟩

theorem EndsInput.from_start {front : List Symbol}
    (shape : grammar.startProduction.rhs = front ++ [grammar.start, grammar.eof]) {symbol : Symbol}
    (ending : grammar.EndsInput symbol) : grammar.FollowsFromStart symbol grammar.eof := by
  obtain ⟨left, derivation⟩ := ending
  have applied : grammar.Derives [grammar.augmentedStart] grammar.startProduction.rhs :=
    Derives.of_production grammar.start_production_mem
  rw [shape] at applied
  have whole := applied.replace derivation
  exact ⟨front ++ left, [], by simpa using whole⟩

/-- Among reachable nonterminals, what follows at all follows in a form of the augmented start. -/
theorem follows_iff_from_start (whole : grammar.WellFormed) {front : List Symbol}
    (shape : grammar.startProduction.rhs = front ++ [grammar.start, grammar.eof])
    (reachable : ∀ origin ∈ grammar.nonterminals, grammar.Reaches grammar.augmentedStart origin)
    {symbol terminal : Symbol} :
    grammar.Follows symbol terminal ↔ grammar.FollowsFromStart symbol terminal := by
  constructor
  · intro follows
    rcases follows with adjacent | ⟨rfl, ending⟩
    · exact adjacent.from_start reachable
    · exact ending.from_start shape
  · intro adjacent
    rcases adjacent with ⟨before, after, derivation⟩
    exact Or.inl ⟨_, whole.augmented_start_known, before, after, derivation⟩

end Grammar

namespace FollowTable

variable {grammar : Grammar} {table : FollowTable}

theorem Exact.answer (whole : grammar.WellFormed) (exact : Exact grammar table) {symbol : Symbol}
    (member : symbol ∈ grammar.nonterminals) :
    grammar.Lists (table.ofSymbol symbol) (grammar.Follows symbol) :=
  ⟨_, of_symbol_eq whole exact.size member, exact.follows_iff symbol member,
    exact.tokens_known symbol member⟩

/-- Every well-formed grammar has a table of exact FOLLOW sets, and in a built grammar whose
nonterminals are all reachable they are the sets of the textbook. -/
theorem follow_sets_are_exact :
    (∀ grammar : Grammar, grammar.WellFormed →
      ∃ table, (ofGrammar grammar).outcome = .ok table ∧
        ∀ symbol ∈ grammar.nonterminals,
          grammar.Lists (table.ofSymbol symbol) (grammar.Follows symbol)) ∧
    ∀ (declarations : Declarations) (variant : Variant) (grammar : Grammar),
      declarations.build variant = .ok grammar →
      (∀ symbol ∈ grammar.nonterminals, grammar.Reaches grammar.augmentedStart symbol) →
      ∃ table, (ofGrammar grammar).outcome = .ok table ∧
        ∀ symbol ∈ grammar.nonterminals,
          grammar.Lists (table.ofSymbol symbol) (grammar.FollowsFromStart symbol) := by
  constructor
  · intro grammar whole
    obtain ⟨table, found, exact⟩ := of_grammar_outcome whole
    exact ⟨table, found, fun symbol member => exact.answer whole member⟩
  · intro declarations variant grammar built reachable
    have whole := Declarations.well_formed_of_build built
    have shape := Declarations.start_production_of_build built
    obtain ⟨table, found, exact⟩ := of_grammar_outcome whole
    refine ⟨table, found, ?_⟩
    intro symbol member
    have same : grammar.Follows symbol = grammar.FollowsFromStart symbol := by
      funext terminal
      exact propext (Grammar.follows_iff_from_start whole shape reachable)
    rw [← same]
    exact exact.answer whole member

section Series

/-- A series of items that may be empty. -/
def seriesDeclarations : Declarations where
  rules := [
    ⟨"series", [⟨[.rule "item", .rule "series"], none⟩, ⟨[], none⟩]⟩,
    ⟨"item", [⟨[.token "x"], none⟩]⟩]
  tokens := ["x"]

def series : Grammar where
  variant := .plain
  tokens := [⟨.terminal, 0, "x"⟩]
  eof := ⟨.terminal, 1, "$"⟩
  nonterminals := [⟨.nonterminal, 0, "series"⟩, ⟨.nonterminal, 1, "item"⟩,
    ⟨.nonterminal, 2, "series'"⟩]
  leading := [
    ⟨0, ⟨.nonterminal, 0, "series"⟩,
      [⟨.nonterminal, 1, "item"⟩, ⟨.nonterminal, 0, "series"⟩], none⟩,
    ⟨1, ⟨.nonterminal, 0, "series"⟩, [], none⟩,
    ⟨2, ⟨.nonterminal, 1, "item"⟩, [⟨.terminal, 0, "x"⟩], none⟩]
  startProduction := ⟨3, ⟨.nonterminal, 2, "series'"⟩,
    [⟨.nonterminal, 0, "series"⟩, ⟨.terminal, 1, "$"⟩], none⟩
  start := ⟨.nonterminal, 0, "series"⟩
  implicitRule := none
  precedences := ∅
  errorTexts := ∅

theorem series_built : seriesDeclarations.build .plain = .ok series := by
  rfl

theorem series_reachable :
    ∀ symbol ∈ series.nonterminals, series.Reaches series.augmentedStart symbol := by
  have start : series.Reaches series.augmentedStart ⟨.nonterminal, 0, "series"⟩ :=
    .of_production series.start_production_mem (by decide)
  have item : series.Reaches ⟨.nonterminal, 0, "series"⟩ ⟨.nonterminal, 1, "item"⟩ :=
    .of_production (show series.leading[0] ∈ series.productions by decide) (by decide)
  intro symbol member
  simp only [series, List.mem_cons, List.not_mem_nil, or_false] at member
  rcases member with rfl | rfl | rfl
  · exact start
  · exact start.trans item
  · exact .refl _

theorem follow_sets_of_series :
    series.WellFormed ∧ seriesDeclarations.build .plain = .ok series ∧
      (∀ symbol ∈ series.nonterminals, series.Reaches series.augmentedStart symbol) ∧
      ∃ table, (ofGrammar series).outcome = .ok table ∧
        ∀ symbol ∈ series.nonterminals,
          series.Lists (table.ofSymbol symbol) (series.Follows symbol) ∧
            series.Lists (table.ofSymbol symbol) (series.FollowsFromStart symbol) := by
  have whole : series.WellFormed := by decide
  obtain ⟨table, found, exact⟩ := follow_sets_are_exact.1 series whole
  obtain ⟨other, again, textbook⟩ :=
    follow_sets_are_exact.2 seriesDeclarations .plain series series_built series_reachable
  obtain rfl : table = other := Except.ok.inj (found.symm.trans again)
  refine ⟨whole, series_built, series_reachable, table, found, ?_⟩
  intro symbol member
  exact ⟨exact symbol member, textbook symbol member⟩

end Series

end FollowTable

end GrammarKit
