import GrammarKit.Proofs.Generator.Dearest

/-!
# The dearest text in a single round

Below a nonterminal that does not recur, the nonterminals can be put in an order in which none
stands before one whose fruitful productions mention it. Going through such an order from its end,
every cost is known when it is asked for. Each is the greatest cost of a text, whichever order it
was.
-/

namespace GrammarKit

set_option autoImplicit false

open DerivationTree

namespace Grammar

variable {grammar : Grammar} {costs : TokenCosts} {symbol : Symbol}

/-- The greatest cost of the forests below a form, which has to have one. -/
def DearestForest (grammar : Grammar) (costs : TokenCosts) (form : List Symbol) (greatest : Int) :
    Prop :=
  (∃ trees, Forest grammar form trees ∧ textCost costs (trees.flatMap leaves) = greatest) ∧
    ∀ trees, Forest grammar form trees → textCost costs (trees.flatMap leaves) ≤ greatest

theorem DearestText.of_alternatives (whole : grammar.WellFormed) {greatest : Int}
    (member : symbol ∈ grammar.nonterminals)
    (attained : ∃ tree, Complete grammar tree ∧ tree.root = symbol ∧
      greatest ≤ textCost costs tree.leaves)
    (bounded : ∀ production, grammar.Fruitful production → production.lhs = symbol →
      ∃ cost, grammar.DearestForest costs production.rhs cost ∧ cost ≤ greatest) :
    grammar.DearestText costs symbol greatest := by
  apply DearestText.of_trees whole attained
  intro tree complete start
  have kind := whole.nonterminal_kind member
  rw [← start] at kind
  obtain ⟨production, children, rfl, applied, forest⟩ := complete.of_nonterminal_root kind
  change production.lhs.isTerminal = false at kind
  obtain ⟨cost, ⟨_, highest⟩, low⟩ :=
    bounded production (Fruitful.of_forest whole applied forest) start
  rw [leaves_node kind]
  exact (highest children forest).trans low

end Grammar

namespace Generator

open Grammar

variable {generator : Generator} {origin symbol : Symbol} {production : Production}
  {known : List (Int × Int)} {order later : List Int}

section Round

/-- What a symbol costs, if it is a token or its cost is known. -/
def ask? (generator : Generator) (known : List (Int × Int)) (symbol : Symbol) : Option Int :=
  if symbol.isTerminal then some (generator.tokenCosts.of symbol) else known.lookup symbol.index

/-- The cost of a right-hand side, if all costs it asks for are known. -/
def askBody? (generator : Generator) (known : List (Int × Int)) : List Symbol → Option Int
  | [] => some 0
  | first :: rest => do
      let cost ← generator.ask? known first
      let further ← generator.askBody? known rest
      return cost + further

/-- The greatest cost of the alternatives at an index. -/
def greatestAt? (generator : Generator) (known : List (Int × Int)) (index : Int) : Option Int :=
  (generator.alternativesWithin (SortedSet.singleton index)).foldlM
    (fun best production => do
      let cost ← generator.askBody? known production.rhs
      return max best cost) 0

/-- Finds the cost at each index, from the end of the list on. -/
def fillIn? (generator : Generator) : List Int → Option (List (Int × Int))
  | [] => some []
  | index :: later => do
      let known ← generator.fillIn? later
      let greatest ← generator.greatestAt? known index
      return (index, greatest) :: known

/-- The cost that a round along an order finds for a symbol. -/
def costAlong? (generator : Generator) (order : List Int) (symbol : Symbol) : Option Int := do
  let known ← generator.fillIn? order
  known.lookup symbol.index

end Round

theorem greatest_found {ι : Type} {cost? : ι → Option Int} {items : List ι}
    (found : ∀ item ∈ items, ∃ cost, cost? item = some cost) (best : Int) :
    ∃ greatest,
      items.foldlM (fun best item => do
        let cost ← cost? item
        return max best cost) best = some greatest ∧
      best ≤ greatest ∧ (∀ item ∈ items, ∀ cost, cost? item = some cost → cost ≤ greatest) ∧
      (greatest = best ∨ ∃ item ∈ items, cost? item = some greatest) := by
  induction items generalizing best with
  | nil => exact ⟨best, rfl, Int.le_refl _, by simp, Or.inl rfl⟩
  | cons first rest ih =>
      obtain ⟨own, here⟩ := found first (by simp)
      obtain ⟨greatest, folded, high, each, attained⟩ :=
        ih (fun item among => found item (by simp [among])) (max best own)
      refine ⟨greatest, ?_, (le_max_left _ _).trans high, ?_, ?_⟩
      · rw [List.foldlM_cons, here]
        exact folded
      · intro item among cost costed
        rcases List.mem_cons.1 among with rfl | later
        · rw [here, Option.some.injEq] at costed
          rw [← costed]
          exact (le_max_right _ _).trans high
        · exact each item later cost costed
      · rcases attained with rfl | ⟨item, later, costed⟩
        · rcases max_choice best own with kept | raised
          · exact Or.inl kept
          · exact Or.inr ⟨first, by simp, by rw [raised, here]⟩
        · exact Or.inr ⟨item, by simp [later], costed⟩

section Filled

/-- The greatest costs are known at all indices of the list. -/
def Filled (generator : Generator) (later : List Int) (known : List (Int × Int)) : Prop :=
  ∀ symbol ∈ generator.grammar.nonterminals, symbol.index ∈ later →
    ∃ greatest, known.lookup symbol.index = some greatest ∧
      generator.grammar.DearestText generator.tokenCosts symbol greatest

variable (whole : generator.grammar.WellFormed)

include whole

theorem Filled.symbol_asked (filled : generator.Filled later known) {part : Symbol}
    (knows : generator.grammar.Knows part)
    (listed : part.isTerminal = false → part.index ∈ later) :
    ∃ greatest, generator.ask? known part = some greatest ∧
      generator.grammar.DearestText generator.tokenCosts part greatest := by
  unfold ask?
  cases kind : part.isTerminal with
  | true =>
      have token : Complete generator.grammar (leaf part) := .token kind
      refine ⟨_, rfl, .of_trees whole ⟨leaf part, token, rfl, ?_⟩ ?_⟩
      · rw [token.text_cost_of_token kind]
        exact Int.le_refl _
      · intro tree complete same
        subst same
        rw [complete.text_cost_of_token kind]
  | false => exact filled part (whole.nonterminal_known knows kind) (listed kind)

theorem Filled.body_asked (filled : generator.Filled later known) {form : List Symbol}
    (knows : generator.grammar.KnowsAll form)
    (listed : ∀ part ∈ form, part.isTerminal = false → part.index ∈ later) :
    ∃ greatest, generator.askBody? known form = some greatest ∧
      generator.grammar.DearestForest generator.tokenCosts form greatest := by
  induction form with
  | nil =>
      refine ⟨0, rfl, ⟨[], Forest.nil, rfl⟩, ?_⟩
      intro trees forest
      obtain rfl := List.map_eq_nil_iff.1 forest.roots
      exact Int.le_refl 0
  | cons first rest ih =>
      obtain ⟨head, here, attained, bounded⟩ :=
        filled.symbol_asked whole (knows first (by simp)) (listed first (by simp))
      obtain ⟨tail, there, ⟨trees, forest, reached⟩, low⟩ :=
        ih knows.tail fun part among => listed part (by simp [among])
      refine ⟨head + tail, ?_, ?_, ?_⟩
      · rw [askBody?, here, there]
        rfl
      · obtain ⟨text, generated, cost⟩ := attained
        obtain ⟨tree, complete, rfl, rfl⟩ := tree_of_derivation whole generated.2 generated.1
        refine ⟨tree :: trees, Forest.cons complete forest, ?_⟩
        rw [List.flatMap_cons, text_cost_append, cost, reached]
      · intro others forest
        obtain ⟨tree, below, rfl, rfl, complete, beside⟩ := forest.of_cons
        have own := bounded tree.leaves ⟨complete.leaves_are_terminals, complete.derives⟩
        have further := low below beside
        rw [List.flatMap_cons, text_cost_append]
        omega

theorem Filled.greatest_at (filled : generator.Filled later known) (prepared : generator.Prepared)
    (signed : generator.tokenCosts.Signed generator.grammar)
    (member : symbol ∈ generator.grammar.nonterminals)
    (derives : generator.grammar.DerivesTokens symbol)
    (listed : ∀ target, generator.grammar.LeadsFruitfully symbol target → target.index ∈ later) :
    ∃ greatest, generator.greatestAt? known symbol.index = some greatest ∧
      generator.grammar.DearestText generator.tokenCosts symbol greatest := by
  have asked : ∀ production, generator.grammar.Fruitful production → production.lhs = symbol →
      ∃ cost, generator.askBody? known production.rhs = some cost ∧
        generator.grammar.DearestForest generator.tokenCosts production.rhs cost := by
    intro production fruitful headed
    exact filled.body_asked whole (whole.body_known fruitful.1) fun part occurs nonterminal =>
      listed part ⟨production, fruitful, headed, occurs, nonterminal⟩
  have found : ∀ production ∈ generator.alternativesWithin (SortedSet.singleton symbol.index),
      ∃ cost, generator.askBody? known production.rhs = some cost := by
    intro production among
    obtain ⟨fruitful, headed⟩ := (prepared.mem_alternatives_at_iff member).1 among
    obtain ⟨cost, costed, _⟩ := asked production fruitful headed
    exact ⟨cost, costed⟩
  obtain ⟨greatest, folded, _, each, attained⟩ := greatest_found found 0
  refine ⟨greatest, folded, .of_alternatives whole member ?_ ?_⟩
  · rcases attained with rfl | ⟨production, among, costed⟩
    · obtain ⟨tree, complete, rfl⟩ := (derives_tokens_iff whole).1 derives
      exact ⟨tree, complete, rfl, signed.tree_tokens whole complete (Or.inr member)⟩
    · obtain ⟨fruitful, rfl⟩ := (prepared.mem_alternatives_at_iff member).1 among
      obtain ⟨cost, same, ⟨trees, forest, reached⟩, _⟩ := asked production fruitful rfl
      rw [same, Option.some.injEq] at costed
      refine ⟨_, forest.expansion whole fruitful.1, rfl, ?_⟩
      rw [leaves_node (whole.nonterminal_kind member), reached, costed]
  · intro production fruitful headed
    obtain ⟨cost, costed, dearest⟩ := asked production fruitful headed
    have among := (prepared.mem_alternatives_at_iff member).2 ⟨fruitful, headed⟩
    exact ⟨cost, dearest, each production among cost costed⟩

end Filled

section Order

theorem Filled.cons (filled : generator.Filled later known) (whole : generator.grammar.WellFormed)
    (member : symbol ∈ generator.grammar.nonterminals) {greatest : Int}
    (dearest : generator.grammar.DearestText generator.tokenCosts symbol greatest) :
    generator.Filled (symbol.index :: later) ((symbol.index, greatest) :: known) := by
  intro other among listed
  by_cases same : other.index = symbol.index
  · obtain rfl := whole.eq_of_same_index among member same
    exact ⟨greatest, List.lookup_cons_self, dearest⟩
  · obtain ⟨further, found, own⟩ :=
      filled other among ((List.mem_cons.1 listed).resolve_left same)
    refine ⟨further, ?_, own⟩
    rw [List.lookup_cons, beq_false_of_ne same]
    exact found

theorem Prepared.exists_order (prepared : generator.Prepared)
    (member : origin ∈ generator.grammar.nonterminals)
    (straight : ¬ generator.grammar.Recurs origin) :
    ∃ order, generator.usefulGraph.Forward origin.index order := by
  apply RuleGraph.exists_forward
  rwa [prepared.recurs_iff member]

variable (prepared : generator.Prepared)
  (signed : generator.tokenCosts.Signed generator.grammar)
  (member : origin ∈ generator.grammar.nonterminals)
  (derives : generator.grammar.DerivesTokens origin)
  (straight : ¬ generator.grammar.Recurs origin)
  (ordered : generator.usefulGraph.Forward origin.index order)

include prepared signed member derives straight ordered

/-- By induction from the end of the order: what stands in the productions of a nonterminal stands
further on, and so its cost is known. -/
theorem filled_in {before : List Int} (split : order = before ++ later) :
    ∃ known, generator.fillIn? later = some known ∧ generator.Filled later known := by
  induction later generalizing before with
  | nil => exact ⟨[], rfl, fun symbol _ absent => absurd absent List.not_mem_nil⟩
  | cons index later ih =>
      have resplit : order = (before ++ [index]) ++ later := by simp [split]
      obtain ⟨known, filling, filled⟩ := ih resplit
      have led := (ordered.listed index).1 (by simp [split])
      obtain ⟨symbol, among, rfl, path⟩ := prepared.useful_led member led
      have productive : generator.grammar.DerivesTokens symbol := by
        rcases Relation.ReflTransGen.cases_tail path with rfl | ⟨_, _, leads⟩
        · exact derives
        · exact leads.derives.2
      have listed : ∀ target, generator.grammar.LeadsFruitfully symbol target →
          target.index ∈ later := by
        intro target leads
        apply (split ▸ ordered).further
          (prepared.useful_arc_iff.2 ⟨symbol, target, leads, rfl, rfl⟩)
        intro same
        obtain rfl := prepared.whole.eq_of_same_index (leads.known prepared.whole).2 among same
        exact straight (Recurs.behind path ⟨target, among, .refl, .single leads⟩)
      obtain ⟨greatest, found, dearest⟩ :=
        filled.greatest_at prepared.whole prepared signed among productive listed
      refine ⟨_, ?_, filled.cons prepared.whole among dearest⟩
      rw [fillIn?, filling, Option.bind_eq_bind, Option.bind_some, found]
      rfl

/-- No cost is asked for in vain, and what is found for the origin is the greatest one. -/
theorem Prepared.found_in_round {greatest : Int}
    (dearest : generator.grammar.DearestText generator.tokenCosts origin greatest) :
    generator.costAlong? order origin = some greatest := by
  obtain ⟨known, filling, filled⟩ :=
    filled_in prepared signed member derives straight ordered (List.nil_append order).symm
  obtain ⟨along, found, own⟩ := filled origin member ((ordered.listed origin.index).2 .refl)
  rw [own.unique dearest] at found
  rw [costAlong?, filling]
  exact found

end Order

end Generator

end GrammarKit
