import GrammarKit.Proofs.Cost.Expansions
import GrammarKit.Proofs.First.Exact
import GrammarKit.Proofs.Productive
import GrammarKit.Sentence.Generator

/-!
# What a generator knows of its grammar

A generator keeps the productive set and the fewest expansions of its grammar. Hence the
alternatives of a nonterminal are its productions that derive a finite sequence, each of them needs
one expansion on top of what its right-hand side needs, and some alternative needs no more than the
nonterminal does. Such an alternative is forced where the allowance is too small for all of them.
-/

namespace GrammarKit

set_option autoImplicit false

open DerivationTree

section Best

variable {α : Type} {better : α → α → Bool} (Low : α → α → Prop) {items : List α}
  (reflexive : ∀ item, Low item item)
  (transitive : ∀ low middle high, Low low middle → Low middle high → Low low high)
  (taken : ∀ item ∈ items, ∀ chosen ∈ items, better item chosen → Low item chosen)
  (passed : ∀ item ∈ items, ∀ chosen ∈ items, better item chosen = false → Low chosen item)

include reflexive transitive taken passed

theorem fold_low {others : List α} {start : α} (known : start ∈ items) (inside : others ⊆ items) :
    Low (others.foldl (fun chosen item => if better item chosen then item else chosen) start)
        start ∧
      ∀ item ∈ others,
        Low (others.foldl (fun chosen item => if better item chosen then item else chosen) start)
          item := by
  induction others generalizing start with
  | nil => exact ⟨reflexive start, by simp⟩
  | cons head tail ih =>
      have headKnown := inside List.mem_cons_self
      have tailKnown : tail ⊆ items := List.Subset.trans (List.subset_cons_self head tail) inside
      rw [List.foldl_cons]
      by_cases preferred : better head start
      · rw [if_pos preferred]
        rcases ih headKnown tailKnown with ⟨low, later⟩
        refine ⟨transitive _ _ _ low (taken head headKnown start known preferred), ?_⟩
        intro item member
        rcases List.mem_cons.1 member with rfl | among
        · exact low
        · exact later item among
      · rw [if_neg preferred]
        rcases ih known tailKnown with ⟨low, later⟩
        refine ⟨low, ?_⟩
        intro item member
        rcases List.mem_cons.1 member with rfl | among
        · exact transitive _ _ _ low (passed item headKnown start known (by simpa using preferred))
        · exact later item among

/-- The best item lies low against all others when a better one always does. -/
theorem best_low {best : α} (found : best? better items = some best) :
    ∀ item ∈ items, Low best item := by
  cases items with
  | nil => cases found
  | cons first rest =>
      cases found
      rcases fold_low Low reflexive transitive taken passed List.mem_cons_self
        (List.subset_cons_self first rest) with ⟨head, tail⟩
      intro item member
      rcases List.mem_cons.1 member with rfl | among
      · exact head
      · exact tail item among

end Best

namespace Generator

/-- The tables of the generator are those of its grammar. -/
structure Prepared (generator : Generator) : Prop where
  whole : generator.grammar.WellFormed
  productive : generator.productive = generator.grammar.productive
  expansions : generator.expansions = generator.grammar.expansions

section Preparation

variable {grammar : Grammar} {options : GeneratorOptions} {firsts : Option FirstTable}
  {generator : Generator}

/-- What has been checked by the time a generator is there. -/
structure Admitted (grammar : Grammar) (options : GeneratorOptions) : Prop where
  budget : 0 ≤ options.maxExpansions
  weights : ∀ entry ∈ options.weights.entries, entry.2.isNegative = false
  expansions : grammar.checkExpansions = .ok ()
  tokenCosts : options.tokenCosts.checkTerminals grammar = .ok ()
  costs : grammar.checkCosts options.tokenCosts = .ok ()

/-- The generator that admitted options make, with the given FIRST sets. -/
def equipped (grammar : Grammar) (options : GeneratorOptions) (table : FirstTable) : Generator where
  grammar := grammar
  firsts := table
  maxExpansions := options.maxExpansions.toNat
  weights := options.weights
  seed := options.seed
  tokenCosts := options.tokenCosts
  productive := grammar.productive
  expansions := grammar.expansions
  costs := CostTable.ofGrammar grammar options.tokenCosts

theorem of_grammar_eq_ok (made : (ofGrammar grammar options firsts).outcome = .ok generator) :
    Admitted grammar options ∧ ∃ table, generator = equipped grammar options table := by
  unfold ofGrammar at made
  dsimp only at made
  split at made
  · obtain ⟨_, failed, _⟩ := noted_bind_eq_ok_iff.1 made
    cases failed
  · rename_i budget
    split at made
    · obtain ⟨_, failed, _⟩ := noted_bind_eq_ok_iff.1 made
      cases failed
    · rename_i weights
      have table : ∃ table, (do
          grammar.checkExpansions
          options.tokenCosts.checkTerminals grammar
          grammar.checkCosts options.tokenCosts
          pure (equipped grammar options table) : Noted Generator).outcome = .ok generator := by
        cases firsts with
        | some table => exact ⟨table, made⟩
        | none =>
            obtain ⟨table, _, rest⟩ := noted_bind_eq_ok_iff.1 made
            exact ⟨table, rest⟩
      obtain ⟨table, made⟩ := table
      obtain ⟨⟨⟩, expansions, made⟩ := noted_bind_eq_ok_iff.1 made
      obtain ⟨⟨⟩, tokenCosts, made⟩ := noted_bind_eq_ok_iff.1 made
      obtain ⟨⟨⟩, costs, made⟩ := noted_bind_eq_ok_iff.1 made
      refine ⟨⟨?_, ?_, expansions, tokenCosts, costs⟩, table, (Except.ok.inj made).symm⟩
      · omega
      · simpa using weights

theorem of_grammar_of_admitted (whole : grammar.WellFormed) (admitted : Admitted grammar options)
    (firsts : Option FirstTable) :
    (ofGrammar grammar options firsts).outcome =
      .ok (equipped grammar options (firsts.getD (FirstTable.settled grammar).1)) := by
  have budget : ¬ options.maxExpansions < 0 := not_lt.2 admitted.budget
  have weights : ¬ (options.weights.entries.any fun entry => entry.2.isNegative) = true := by
    simpa using admitted.weights
  unfold ofGrammar
  dsimp only
  rw [if_neg budget, if_neg weights, admitted.expansions, admitted.tokenCosts, admitted.costs]
  cases firsts with
  | some table => rfl
  | none => exact Noted.outcome_bind_ok (FirstTable.of_grammar_outcome whole)

theorem equipped_prepared (whole : grammar.WellFormed) (table : FirstTable) :
    (equipped grammar options table).Prepared := ⟨whole, rfl, rfl⟩

theorem prepared_of_grammar (whole : grammar.WellFormed)
    (made : (ofGrammar grammar options firsts).outcome = .ok generator) : generator.Prepared := by
  obtain ⟨_, table, rfl⟩ := of_grammar_eq_ok made
  exact equipped_prepared whole table

end Preparation

section Needs

variable {generator : Generator} {symbol : Symbol}

theorem need_of_terminal (terminal : symbol.isTerminal) : generator.need symbol = some 0 :=
  if_pos terminal

theorem Prepared.need_of_nonterminal (prepared : generator.Prepared)
    (nonterminal : symbol.isTerminal = false) :
    generator.need symbol = (item? generator.grammar.expansions symbol.index).join := by
  rw [need, nonterminal, expansionsOf, prepared.expansions]
  rfl

theorem Prepared.need_least (prepared : generator.Prepared)
    (known : generator.grammar.Knows symbol) {least : Nat}
    (found : generator.need symbol = some least) :
    generator.grammar.LeastExpansions symbol least := by
  cases kind : symbol.isTerminal with
  | true =>
      rw [need_of_terminal kind, Option.some.injEq] at found
      exact found ▸ .of_terminal kind
  | false =>
      rw [prepared.need_of_nonterminal kind] at found
      have member := prepared.whole.nonterminal_known known kind
      exact Grammar.least_of_expansions_entry prepared.whole member found

theorem Prepared.need_of_derives (prepared : generator.Prepared)
    (known : generator.grammar.Knows symbol)
    (derives : generator.grammar.DerivesTokens symbol) :
    ∃ least, generator.need symbol = some least := by
  cases kind : symbol.isTerminal with
  | true => exact ⟨0, need_of_terminal kind⟩
  | false =>
      rw [prepared.need_of_nonterminal kind]
      have member := prepared.whole.nonterminal_known known kind
      exact Grammar.expansions_entry_of_derives prepared.whole member derives

/-- The expansions that all symbols of a form need together. -/
def needAll (generator : Generator) (form : List Symbol) : Option Nat :=
  form.foldr (fun symbol rest => do return (← generator.need symbol) + (← rest)) (some 0)

theorem pending_eq (production : Production) :
    generator.pending production = generator.needAll production.rhs := rfl

theorem need_all_cons_iff {rest : List Symbol} {total : Nat} :
    generator.needAll (symbol :: rest) = some total ↔
      ∃ first later, generator.need symbol = some first ∧ generator.needAll rest = some later ∧
        first + later = total := by
  change (do return (← generator.need symbol) + (← generator.needAll rest) : Option Nat) = _ ↔ _
  cases generator.need symbol <;> cases generator.needAll rest <;> simp

theorem need_all_single {least : Nat} (needed : generator.need symbol = some least) :
    generator.needAll [symbol] = some least :=
  need_all_cons_iff.2 ⟨least, 0, needed, rfl, rfl⟩

theorem Prepared.need_all_of_derives (prepared : generator.Prepared) {form : List Symbol}
    (known : generator.grammar.KnowsAll form)
    (derives : ∀ symbol ∈ form, generator.grammar.DerivesTokens symbol) :
    ∃ total, generator.needAll form = some total := by
  induction form with
  | nil => exact ⟨0, rfl⟩
  | cons head rest ih =>
      obtain ⟨first, headNeed⟩ :=
        prepared.need_of_derives (known head (by simp)) (derives head (by simp))
      obtain ⟨later, restNeed⟩ :=
        ih known.tail (fun symbol member => derives symbol (by simp [member]))
      exact ⟨first + later, need_all_cons_iff.2 ⟨first, later, headNeed, restNeed, rfl⟩⟩

theorem Prepared.need_all_le (prepared : generator.Prepared) {form : List Symbol}
    (known : generator.grammar.KnowsAll form) {total : Nat}
    (found : generator.needAll form = some total) {trees : List DerivationTree}
    (forest : Forest generator.grammar form trees) : total ≤ expansionCountAll trees := by
  induction form generalizing total trees with
  | nil =>
      cases found
      exact Nat.zero_le _
  | cons head rest ih =>
      obtain ⟨first, later, headNeed, restNeed, rfl⟩ := need_all_cons_iff.1 found
      obtain ⟨tree, others, rfl, start, complete, restForest⟩ := forest.of_cons
      have low := (prepared.need_least (known head (by simp)) headNeed).2 tree complete start
      have tail := ih known.tail restNeed restForest
      rw [expansionCountAll]
      omega

theorem Prepared.need_all_attained (prepared : generator.Prepared) {form : List Symbol}
    (known : generator.grammar.KnowsAll form) {total : Nat}
    (found : generator.needAll form = some total) :
    ∃ trees, Forest generator.grammar form trees ∧ expansionCountAll trees = total := by
  induction form generalizing total with
  | nil =>
      cases found
      exact ⟨[], Forest.nil, rfl⟩
  | cons head rest ih =>
      obtain ⟨first, later, headNeed, restNeed, rfl⟩ := need_all_cons_iff.1 found
      obtain ⟨⟨tree, complete, rfl, rfl⟩, _⟩ :=
        prepared.need_least (known head (by simp)) headNeed
      obtain ⟨trees, forest, rfl⟩ := ih known.tail restNeed
      exact ⟨tree :: trees, Forest.cons complete forest, rfl⟩

theorem Prepared.children_need (prepared : generator.Prepared) {production : Production}
    (applied : production ∈ generator.grammar.productions) {children : List DerivationTree}
    (body : children.map root = production.rhs) {pending : Nat}
    (waiting : generator.pending production = some pending) :
    generator.grammar.KnowsAll (children.map root) ∧
      generator.needAll (children.map root) = some pending := by
  rw [pending_eq] at waiting
  rw [body]
  exact ⟨prepared.whole.body_known applied, waiting⟩

end Needs

section Alternatives

variable {generator : Generator} {symbol : Symbol} {production : Production}

theorem Prepared.mem_productions_of_iff (prepared : generator.Prepared)
    (member : symbol ∈ generator.grammar.nonterminals) :
    production ∈ generator.productionsOf symbol ↔
      production ∈ generator.grammar.productions ∧ production.lhs = symbol := by
  obtain ⟨place, _, named⟩ := prepared.whole.rule_slot member
  unfold productionsOf
  rw [named]
  simp only [Grammar.productionsAt, List.mem_filter, decide_eq_true_eq]
  constructor
  · intro own
    rcases own with ⟨listed, headed⟩
    have head := prepared.whole.heads_known production listed
    exact ⟨listed, (prepared.whole.slot_same_iff head member).1 (headed.trans named.symm)⟩
  · intro own
    rcases own with ⟨listed, rfl⟩
    exact ⟨listed, named⟩

theorem Prepared.mem_alternatives_iff (prepared : generator.Prepared)
    (member : symbol ∈ generator.grammar.nonterminals) :
    production ∈ generator.alternatives symbol ↔
      production ∈ generator.grammar.productions ∧ production.lhs = symbol ∧
        ∀ part ∈ production.rhs, generator.grammar.DerivesTokens part := by
  unfold alternatives
  rw [List.mem_filter, prepared.mem_productions_of_iff member, prepared.productive, and_assoc]
  constructor
  · intro alternative
    rcases alternative with ⟨listed, same, fruitful⟩
    exact ⟨listed, same, (Grammar.is_productive_iff prepared.whole listed).1 fruitful⟩
  · intro alternative
    rcases alternative with ⟨listed, same, each⟩
    exact ⟨listed, same, (Grammar.is_productive_iff prepared.whole listed).2 each⟩

/-- An alternative needs one expansion on top of its right-hand side, the nonterminal no more. -/
theorem Prepared.alternative_pending (prepared : generator.Prepared)
    (member : symbol ∈ generator.grammar.nonterminals) {least : Nat}
    (found : generator.need symbol = some least)
    (alternative : production ∈ generator.alternatives symbol) :
    ∃ pending, generator.pending production = some pending ∧ least ≤ pending + 1 := by
  obtain ⟨listed, rfl, each⟩ := (prepared.mem_alternatives_iff member).1 alternative
  have known := prepared.whole.body_known listed
  obtain ⟨pending, waiting⟩ := prepared.need_all_of_derives known each
  obtain ⟨trees, forest, rfl⟩ := prepared.need_all_attained known waiting
  refine ⟨expansionCountAll trees, waiting, ?_⟩
  have low := (prepared.need_least (Or.inr member) found).2 _
    (forest.expansion prepared.whole listed) rfl
  rw [expansion_count_node (prepared.whole.nonterminal_kind member)] at low
  omega

theorem Prepared.alternative_of_tree (prepared : generator.Prepared)
    {children : List DerivationTree} (listed : production ∈ generator.grammar.productions)
    (forest : Forest generator.grammar production.rhs children) :
    production ∈ generator.alternatives production.lhs ∧
      ∃ pending, generator.pending production = some pending ∧
        pending ≤ expansionCountAll children := by
  have member := prepared.whole.heads_known production listed
  have known := prepared.whole.body_known listed
  have each : ∀ part ∈ production.rhs, generator.grammar.DerivesTokens part := by
    intro part occurs
    rw [← forest.roots] at occurs
    obtain ⟨child, among, rfl⟩ := List.mem_map.1 occurs
    exact (derives_tokens_iff prepared.whole).2 ⟨child, forest.complete child among, rfl⟩
  obtain ⟨pending, waiting⟩ := prepared.need_all_of_derives known each
  refine ⟨(prepared.mem_alternatives_iff member).2 ⟨listed, rfl, each⟩, pending, waiting, ?_⟩
  exact prepared.need_all_le known waiting forest

theorem Prepared.least_alternative (prepared : generator.Prepared)
    (member : symbol ∈ generator.grammar.nonterminals) {least : Nat}
    (found : generator.need symbol = some least) :
    ∃ production ∈ generator.alternatives symbol,
      ∃ pending, generator.pending production = some pending ∧ pending + 1 = least := by
  obtain ⟨⟨tree, complete, rfl, rfl⟩, _⟩ := prepared.need_least (Or.inr member) found
  have nonterminal := prepared.whole.nonterminal_kind member
  obtain ⟨production, children, rfl, listed, forest⟩ := complete.of_nonterminal_root nonterminal
  change production.lhs.isTerminal = false at nonterminal
  obtain ⟨alternative, pending, waiting, low⟩ := prepared.alternative_of_tree listed forest
  obtain ⟨again, same, high⟩ := prepared.alternative_pending member found alternative
  rw [waiting, Option.some.injEq] at same
  subst same
  rw [expansion_count_node nonterminal] at high
  refine ⟨production, alternative, pending, waiting, ?_⟩
  rw [expansion_count_node nonterminal]
  omega

/-- The alternatives that fit into an allowance. -/
def candidates (generator : Generator) (symbol : Symbol) (allowance : Int) : List Production :=
  (generator.alternatives symbol).filter (generator.fits allowance)

theorem fits_iff {allowance : Int} {pending : Nat}
    (waiting : generator.pending production = some pending) :
    generator.fits allowance production ↔ (pending : Int) + 1 ≤ allowance := by
  simp [fits, waiting]

theorem Prepared.candidates_nonempty_iff (prepared : generator.Prepared)
    (member : symbol ∈ generator.grammar.nonterminals) {least : Nat}
    (found : generator.need symbol = some least) {allowance : Int} :
    0 < (generator.candidates symbol allowance).length ↔ (least : Int) ≤ allowance := by
  rw [List.length_pos_iff_exists_mem]
  constructor
  · intro offering
    rcases offering with ⟨production, offered⟩
    obtain ⟨alternative, fitting⟩ := List.mem_filter.1 offered
    obtain ⟨pending, waiting, low⟩ := prepared.alternative_pending member found alternative
    have high := (fits_iff waiting).1 fitting
    omega
  · intro enough
    obtain ⟨production, alternative, pending, waiting, same⟩ :=
      prepared.least_alternative member found
    refine ⟨production, List.mem_filter.2 ⟨alternative, (fits_iff waiting).2 ?_⟩⟩
    omega

/-- One alternative lies low against another when it needs at most as many expansions. -/
def NeedsAtMost (generator : Generator) (low high : Production) : Prop :=
  ∀ bound, generator.pending high = some bound →
    ∃ pending, generator.pending low = some pending ∧ pending ≤ bound

theorem Prepared.forced_pending (prepared : generator.Prepared)
    (member : symbol ∈ generator.grammar.nonterminals) {least : Nat}
    (found : generator.need symbol = some least)
    (forced : best? generator.fewer (generator.alternatives symbol) = some production) :
    production ∈ generator.alternatives symbol ∧
      ∃ pending, generator.pending production = some pending ∧ pending + 1 = least := by
  have alternative := best_mem forced
  have lowest : ∀ other ∈ generator.alternatives symbol,
      generator.NeedsAtMost production other := by
    apply best_low generator.NeedsAtMost _ _ _ _ forced
    · intro item bound waiting
      exact ⟨bound, waiting, Nat.le_refl _⟩
    · intro low middle high first second bound waiting
      obtain ⟨between, waiting, below⟩ := second bound waiting
      obtain ⟨pending, waiting, further⟩ := first between waiting
      exact ⟨pending, waiting, by omega⟩
    · intro item _ chosen _ better bound waiting
      simp only [fewer, waiting] at better
      cases pendingHere : generator.pending item with
      | none => simp [pendingHere] at better
      | some pending =>
          simp [pendingHere] at better
          exact ⟨pending, rfl, by omega⟩
    · intro item among chosen chosenAmong worse bound waiting
      obtain ⟨pending, pendingHere, _⟩ :=
        prepared.alternative_pending member found chosenAmong
      simp [fewer, waiting, pendingHere] at worse
      exact ⟨pending, pendingHere, by omega⟩
  obtain ⟨cheapest, cheapestAmong, bound, waiting, same⟩ := prepared.least_alternative member found
  obtain ⟨pending, known, low⟩ := lowest cheapest cheapestAmong bound waiting
  obtain ⟨again, equal, high⟩ := prepared.alternative_pending member found alternative
  rw [known, Option.some.injEq] at equal
  subst equal
  exact ⟨alternative, pending, known, by omega⟩

theorem Prepared.check_iff (prepared : generator.Prepared)
    (member : symbol ∈ generator.grammar.nonterminals) :
    generator.check symbol = .ok () ↔ generator.grammar.DerivesTokens symbol := by
  rw [← Grammar.mem_productive_iff prepared.whole member, ← prepared.productive]
  unfold check
  rw [prepared.whole.nonterminal_kind member, if_neg Bool.false_ne_true]
  by_cases found : symbol.index ∈ generator.productive
  · rw [if_neg (not_not_intro found)]
    exact iff_of_true rfl found
  · rw [if_pos found]
    apply iff_of_false _ found
    intro accepted
    cases accepted

end Alternatives

end Generator

end GrammarKit
