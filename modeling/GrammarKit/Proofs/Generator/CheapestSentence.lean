import GrammarKit.Proofs.Generator.Cheapest
import GrammarKit.Proofs.Generator.Runs
import Mathlib.Logic.Relation

/-!
# The tree behind a cheapest sentence

A nonterminal costs as much as its cheapest production, and what stands in the production costs
less. So wherever cheapest productions are followed down a tree, fewer and fewer nonterminals are as
cheap, and no path is longer than there are nonterminals. The tree of the cheapest productions is
therefore finite. It costs what the table says, and its frontier is the sentence that is answered.
-/

namespace GrammarKit

set_option autoImplicit false

open DerivationTree

namespace Generator

variable {generator : Generator} {symbol : Symbol} {cost : Cost}

section Choice

/-- One production lies low against another when it costs at most as much. -/
def CostsAtMost (generator : Generator) (low high : Production) : Prop :=
  ∀ bound, Cost.Meets (generator.costs.ofProduction generator.tokenCosts high) bound →
    Cost.Meets (generator.costs.ofProduction generator.tokenCosts low) bound

theorem costs_at_most_of_unimproved {low high : Production}
    (unimproved : Cost.improves (generator.costs.ofProduction generator.tokenCosts high)
      (generator.costs.ofProduction generator.tokenCosts low) = false) :
    generator.CostsAtMost low high := fun _ met => met.of_unimproved unimproved

theorem cheapest_costs_at_most {cheapest : Production}
    (chosen : generator.cheapestProduction? symbol = some cheapest) :
    ∀ production ∈ generator.productionsOf symbol, generator.CostsAtMost cheapest production := by
  apply best_low generator.CostsAtMost _ _ _ _ chosen
  · intro item bound met
    exact met
  · intro low middle high first second bound met
    exact first bound (second bound met)
  · intro item _ other _ preferred
    apply costs_at_most_of_unimproved
    simp only [cheaper, Bool.or_eq_true, Bool.and_eq_true, Bool.not_eq_true'] at preferred
    rcases preferred with improved | ⟨unimproved, _⟩
    · exact Cost.improves_asymm improved
    · exact unimproved
  · intro item _ other _ passed
    apply costs_at_most_of_unimproved
    simp only [cheaper, Bool.or_eq_false_iff] at passed
    exact passed.1

theorem Exact.cheapest_production (exact : generator.Exact)
    (member : symbol ∈ generator.grammar.nonterminals)
    (entry : generator.costs.costAt symbol.index = some cost) :
    ∃ production, generator.cheapestProduction? symbol = some production ∧
      production ∈ generator.grammar.productions ∧ production.lhs = symbol ∧
      generator.costs.ofProduction generator.tokenCosts production = some cost := by
  have settled := entry
  rw [exact.costs] at settled
  obtain ⟨attaining, listed, head, attained⟩ :=
    CostTable.production_of_cost_at exact.whole exact.signed member settled
  have own := (exact.mem_productions_of_iff member).2 ⟨listed, head⟩
  have offered : generator.productionsOf symbol ≠ [] := List.ne_nil_of_mem own
  have some_chosen : (generator.cheapestProduction? symbol).isSome := best_of_nonempty offered
  obtain ⟨cheapest, chosen⟩ := Option.isSome_iff_exists.1 some_chosen
  obtain ⟨cheapestListed, rfl⟩ := (exact.mem_productions_of_iff member).1 (best_mem chosen)
  have low := cheapest_costs_at_most chosen attaining own cost
  rw [exact.costs] at low
  obtain ⟨found, known, below⟩ := low ⟨cost, attained, .refl cost⟩
  have above := CostTable.at_most_of_production exact.whole exact.signed cheapestListed settled known
  refine ⟨cheapest, chosen, cheapestListed, rfl, ?_⟩
  rw [exact.costs, known, below.antisymm above]

theorem Exact.part_before (exact : generator.Exact) {production : Production}
    (listed : production ∈ generator.grammar.productions)
    (found : generator.costs.ofProduction generator.tokenCosts production = some cost)
    {part : Symbol} (occurs : part ∈ production.rhs) {entry : Cost}
    (known : generator.costs.ofSymbol generator.tokenCosts part = some entry) :
    ¬ cost.AtMost entry := by
  rw [exact.costs] at found known
  exact CostTable.part_before exact.whole exact.signed listed found occurs known

end Choice

section Trees

/-- Every node of the tree is expanded by the cheapest production. -/
inductive Cheapest (generator : Generator) : DerivationTree → Prop where
  | token {symbol : Symbol} (terminal : symbol.isTerminal) : Cheapest generator (leaf symbol)
  | expansion {production : Production} {children : List DerivationTree}
      (nonterminal : production.lhs.isTerminal = false)
      (chosen : generator.cheapestProduction? production.lhs = some production)
      (body : children.map root = production.rhs)
      (each : ∀ child ∈ children, Cheapest generator child) :
      Cheapest generator (.node ⟨production.lhs, some production⟩ children)

/-- The nonterminals that do not cost more than this. -/
def notDearer (generator : Generator) (cost : Cost) : List Symbol :=
  generator.grammar.nonterminals.filter fun symbol =>
    Cost.Meets (generator.costs.costAt symbol.index) cost

theorem mem_not_dearer_iff : symbol ∈ generator.notDearer cost ↔
    symbol ∈ generator.grammar.nonterminals ∧
      Cost.Meets (generator.costs.costAt symbol.index) cost := by
  simp [notDearer]

theorem not_dearer_self (member : symbol ∈ generator.grammar.nonterminals)
    (entry : generator.costs.costAt symbol.index = some cost) :
    symbol ∈ generator.notDearer cost :=
  mem_not_dearer_iff.2 ⟨member, cost, entry, .refl cost⟩

theorem not_dearer_shrinks (member : symbol ∈ generator.grammar.nonterminals)
    (entry : generator.costs.costAt symbol.index = some cost) {lower : Cost}
    (less : ¬ cost.AtMost lower) :
    (generator.notDearer lower).length < (generator.notDearer cost).length := by
  have ordered : lower.AtMost cost := (Cost.AtMost.total cost lower).resolve_left less
  have part : generator.notDearer lower = (generator.notDearer cost).filter fun other =>
      Cost.Meets (generator.costs.costAt other.index) lower := by
    unfold notDearer
    rw [List.filter_filter]
    apply List.filter_congr
    intro other _
    have weaker : Cost.Meets (generator.costs.costAt other.index) lower →
        Cost.Meets (generator.costs.costAt other.index) cost := fun met => met.weaken ordered
    grind
  rw [part]
  refine List.length_filter_lt_length_iff_exists.2 ⟨symbol, not_dearer_self member entry, ?_⟩
  rw [decide_eq_true_eq]
  intro met
  obtain ⟨same, known, low⟩ := met
  rw [entry, Option.some.injEq] at known
  subst known
  exact less low

theorem cheapest_leaf (terminal : symbol.isTerminal)
    (entry : generator.costs.ofSymbol generator.tokenCosts symbol = some cost) (height : Nat) :
    ∃ tree, Complete generator.grammar tree ∧ tree.root = symbol ∧
      tree.cost generator.tokenCosts = cost ∧ generator.Cheapest tree ∧ tree.depth ≤ height := by
  rw [CostTable.of_symbol_terminal terminal, Option.some.injEq] at entry
  refine ⟨leaf symbol, .token terminal, rfl, (cost_leaf terminal).trans entry, .token terminal, ?_⟩
  rw [depth_leaf terminal]
  exact Nat.zero_le height

/-- The nonterminals on a path are among those that do not cost more than its first one. -/
theorem Exact.cheapest_tree (exact : generator.Exact) (height : Nat)
    (known : generator.grammar.Knows symbol)
    (entry : generator.costs.ofSymbol generator.tokenCosts symbol = some cost)
    (enough : symbol.isTerminal = false → (generator.notDearer cost).length ≤ height) :
    ∃ tree, Complete generator.grammar tree ∧ tree.root = symbol ∧
      tree.cost generator.tokenCosts = cost ∧ generator.Cheapest tree ∧ tree.depth ≤ height := by
  induction height generalizing symbol cost with
  | zero =>
      cases kind : symbol.isTerminal with
      | true => exact cheapest_leaf kind entry 0
      | false =>
          rw [CostTable.of_symbol_nonterminal kind] at entry
          have member := exact.whole.nonterminal_known known kind
          have counted := List.length_pos_of_mem (not_dearer_self member entry)
          have bounded := enough kind
          omega
  | succ height ih =>
      cases kind : symbol.isTerminal with
      | true => exact cheapest_leaf kind entry (height + 1)
      | false =>
          rw [CostTable.of_symbol_nonterminal kind] at entry
          have member := exact.whole.nonterminal_known known kind
          obtain ⟨production, chosen, listed, rfl, found⟩ := exact.cheapest_production member entry
          have below : ∀ part ∈ production.rhs, ∀ partCost,
              generator.costs.ofSymbol generator.tokenCosts part = some partCost →
                ∃ tree, Complete generator.grammar tree ∧ tree.root = part ∧
                  tree.cost generator.tokenCosts = partCost ∧
                  (generator.Cheapest tree ∧ tree.depth ≤ height) := by
            intro part occurs partCost partEntry
            apply ih (exact.whole.body_known listed part occurs) partEntry
            intro _
            have less := exact.part_before listed found occurs partEntry
            have shorter := not_dearer_shrinks member entry less
            have bounded := enough kind
            omega
          obtain ⟨first, second, single, body, rfl⟩ := Cost.sum_eq_some_iff.1 found
          obtain rfl := Option.some.inj single
          obtain ⟨children, forest, rfl, each⟩ := CostTable.forest_of_entries below body
          refine ⟨_, forest.expansion exact.whole listed, rfl, cost_node kind, ?_, ?_⟩
          · exact .expansion kind chosen forest.roots fun child among => (each child among).1
          · rw [depth_node kind]
            have shallow := depth_all_le_iff.2 fun child among => (each child among).2
            omega

end Trees

section Loop

/-- A height that the tree keeps to does not cut its sentence short. -/
theorem Cheapest.tokens {tree : DerivationTree} (cheapest : generator.Cheapest tree) {height : Nat}
    (shallow : tree.depth ≤ height) : generator.cheapestTokens height tree.root = tree.leaves := by
  induction cheapest generalizing height with
  | @token symbol terminal =>
      rw [leaves_leaf terminal]
      change generator.cheapestTokens height symbol = [symbol]
      cases height <;> simp [cheapestTokens, terminal]
  | @expansion production children nonterminal chosen body each ih =>
      rw [depth_node nonterminal] at shallow
      cases height with
      | zero => omega
      | succ height =>
          have below := depth_all_le_iff.1 (Nat.le_of_succ_le_succ shallow)
          change generator.cheapestTokens (height + 1) production.lhs = _
          rw [cheapestTokens, nonterminal, if_neg Bool.false_ne_true, chosen,
            leaves_node nonterminal]
          change production.rhs.flatMap (generator.cheapestTokens height) = _
          rw [← body, List.flatMap_map]
          exact List.flatMap_congr fun child among => ih child among (below child among)

/-- A stack of symbols that are to be derived, and the tokens that are out already. -/
structure Unrolling where
  stack : List Symbol
  out : List Symbol

/-- A round puts out the token on top of the stack, or puts the right-hand side of its cheapest
production in the place of a nonterminal. -/
inductive Round (generator : Generator) : Unrolling → Unrolling → Prop where
  | token {symbol : Symbol} {rest out : List Symbol} (terminal : symbol.isTerminal) :
      Round generator ⟨symbol :: rest, out⟩ ⟨rest, out ++ [symbol]⟩
  | expansion {symbol : Symbol} {production : Production} {rest out : List Symbol}
      (nonterminal : symbol.isTerminal = false)
      (chosen : generator.cheapestProduction? symbol = some production) :
      Round generator ⟨symbol :: rest, out⟩ ⟨production.rhs ++ rest, out⟩

theorem Round.unique {state left right : Unrolling} (first : generator.Round state left)
    (second : generator.Round state right) : left = right := by
  cases first with
  | token terminal =>
      cases second with
      | token _ => rfl
      | expansion nonterminal _ =>
          rw [terminal] at nonterminal
          cases nonterminal
  | expansion nonterminal chosen =>
      cases second with
      | token terminal =>
          rw [nonterminal] at terminal
          cases terminal
      | expansion _ again =>
          obtain rfl := Option.some.inj (chosen.symm.trans again)
          rfl

/-- Wherever the rounds from the symbol have come to, they go on to an empty stack with this text. -/
def Unrolls (generator : Generator) (symbol : Symbol) (text : List Symbol) : Prop :=
  ∀ state, Relation.ReflTransGen generator.Round ⟨[symbol], []⟩ state →
    Relation.ReflTransGen generator.Round state ⟨[], text⟩

theorem unrolls_of_rounds {text : List Symbol}
    (rounds : Relation.ReflTransGen generator.Round ⟨[symbol], []⟩ ⟨[], text⟩) :
    generator.Unrolls symbol text := by
  intro state reached
  have unique : Relator.RightUnique generator.Round := fun _ _ _ => Round.unique
  rcases Relation.ReflTransGen.total_of_right_unique unique reached rounds with ahead | beyond
  · exact ahead
  · -- Nothing comes behind the end, as no round starts from an empty stack.
    rcases Relation.ReflTransGen.cases_head beyond with same | ⟨next, step, _⟩
    · rw [same]
    · cases step

theorem rounds_of_each {trees : List DerivationTree}
    (each : ∀ tree ∈ trees, ∀ rest out, Relation.ReflTransGen generator.Round
      ⟨tree.root :: rest, out⟩ ⟨rest, out ++ tree.leaves⟩) (rest out : List Symbol) :
    Relation.ReflTransGen generator.Round ⟨trees.map root ++ rest, out⟩
      ⟨rest, out ++ trees.flatMap leaves⟩ := by
  induction trees generalizing out with
  | nil =>
      rw [List.flatMap_nil, List.append_nil]
      exact .refl
  | cons tree others ih =>
      have head := each tree (by simp) (others.map root ++ rest) out
      have tail := ih (fun other among => each other (by simp [among])) (out ++ tree.leaves)
      rw [List.append_assoc, ← List.flatMap_cons] at tail
      exact head.trans tail

/-- The rounds take the tree down to its leaves and leave the rest of the stack alone. -/
theorem Cheapest.rounds {tree : DerivationTree} (cheapest : generator.Cheapest tree)
    (rest out : List Symbol) :
    Relation.ReflTransGen generator.Round ⟨tree.root :: rest, out⟩
      ⟨rest, out ++ tree.leaves⟩ := by
  induction cheapest generalizing rest out with
  | token terminal =>
      rw [leaves_leaf terminal]
      exact .single (.token terminal)
  | @expansion production children nonterminal chosen body each ih =>
      have below := rounds_of_each ih rest out
      rw [body] at below
      rw [leaves_node nonterminal]
      exact .head (.expansion nonterminal chosen) below

end Loop

theorem Exact.min_sentence (exact : generator.Exact)
    (member : symbol ∈ generator.grammar.nonterminals)
    (derives : generator.grammar.DerivesTokens symbol) :
    ∃ text, generator.minSentence symbol = .ok text ∧ generator.grammar.Generates symbol text ∧
      generator.grammar.CheapestText generator.tokenCosts symbol
        (Grammar.textCost generator.tokenCosts text) ∧
      (text = [] ∨ generator.Unrolls symbol text) := by
  have known : generator.grammar.Knows symbol := Or.inr member
  have checked := (exact.check_iff member).2 derives
  unfold minSentence
  rw [checked, exact.nullable_eq known]
  cases vanishes : (generator.firsts.entry symbol).nullable with
  | true =>
      have empty := (exact.firsts.entry_vanishes_iff known).1 vanishes
      refine ⟨[], rfl, ⟨by simp, empty⟩, ?_, Or.inl rfl⟩
      exact .of_vanishing exact.whole exact.signed known empty
  | false =>
      obtain ⟨cost, found⟩ := exact.cost_found member derives
      have entry : generator.costs.ofSymbol generator.tokenCosts symbol = some cost := by
        rwa [CostTable.of_symbol_nonterminal (exact.whole.nonterminal_kind member)]
      have bounded : (generator.notDearer cost).length ≤ generator.grammar.nonterminals.length :=
        List.length_filter_le _ _
      obtain ⟨tree, complete, rfl, rfl, cheapest, shallow⟩ :=
        exact.cheapest_tree _ known entry fun _ => bounded
      refine ⟨tree.leaves, ?_, ⟨complete.leaves_are_terminals, complete.derives⟩, ?_, Or.inr ?_⟩
      · exact congrArg Except.ok (cheapest.tokens shallow)
      · exact .of_least_cost exact.whole (exact.cost_least member found)
      · exact unrolls_of_rounds (cheapest.rounds [] [])

end Generator

end GrammarKit
