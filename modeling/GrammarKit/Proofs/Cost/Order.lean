import GrammarKit.Proofs.Derivations
import GrammarKit.Proofs.Rules
import Mathlib.Algebra.Order.BigOperators.Group.List
import Mathlib.Algebra.Order.Group.Nat
import Mathlib.Algebra.Order.Ring.Int
import Mathlib.Data.List.Nodup
import Mathlib.Data.Prod.Lex
import Mathlib.Order.WellFounded

/-!
# The order of costs

Costs are compared by their tokens first. The cost of an unknown derivation is above every other
cost. The cost of a tree is one expansion on top of the costs of its subtrees, so a subtree costs
less than the whole tree as long as no token has a negative cost.
-/

namespace GrammarKit

set_option autoImplicit false

namespace Cost

/-- The other cost does not come before this one. -/
def AtMost (left right : Cost) : Prop :=
  left.tokens < right.tokens ∨ (left.tokens = right.tokens ∧ left.expansions ≤ right.expansions)

theorem before_iff {left right : Cost} : left.before right ↔ ¬ right.AtMost left := by
  simp only [before, AtMost, Bool.or_eq_true, Bool.and_eq_true, decide_eq_true_eq]
  omega

theorem AtMost.refl (cost : Cost) : cost.AtMost cost := Or.inr ⟨rfl, Nat.le_refl _⟩

theorem AtMost.trans {low middle high : Cost} (first : low.AtMost middle)
    (second : middle.AtMost high) : low.AtMost high := by
  unfold AtMost at *
  omega

theorem AtMost.total (left right : Cost) : left.AtMost right ∨ right.AtMost left := by
  unfold AtMost
  omega

theorem AtMost.antisymm {left right : Cost} (first : left.AtMost right)
    (second : right.AtMost left) : left = right := by
  cases left
  cases right
  simp only [AtMost, Cost.mk.injEq] at *
  omega

theorem AtMost.add {left right leftBound rightBound : Cost} (first : left.AtMost leftBound)
    (second : right.AtMost rightBound) : (left.add right).AtMost (leftBound.add rightBound) := by
  simp only [AtMost, Cost.add] at *
  omega

/-- A place in the well-founded order of pairs of natural numbers. -/
def rank (cost : Cost) : ℕ ×ₗ ℕ := toLex (cost.tokens.toNat, cost.expansions)

theorem at_most_of_rank {left right : Cost} (leftSigned : 0 ≤ left.tokens)
    (rightSigned : 0 ≤ right.tokens) (ordered : left.rank ≤ right.rank) : left.AtMost right := by
  rw [rank, rank, Prod.Lex.toLex_le_toLex] at ordered
  unfold AtMost
  omega

theorem exists_least {Admitted : Cost → Prop}
    (signed : ∀ cost, Admitted cost → 0 ≤ cost.tokens) (some_admitted : ∃ cost, Admitted cost) :
    ∃ least, Admitted least ∧ ∀ cost, Admitted cost → least.AtMost cost := by
  have ordered : WellFounded fun low high : ℕ ×ₗ ℕ => low < high := wellFounded_lt
  have founded := InvImage.wf rank ordered
  obtain ⟨least, admitted, smallest⟩ := founded.has_min {cost | Admitted cost} some_admitted
  refine ⟨least, admitted, ?_⟩
  intro cost other
  have ordered : least.rank ≤ cost.rank := not_lt.1 (smallest cost other)
  exact at_most_of_rank (signed least admitted) (signed cost other) ordered

/-- A known cost that the bound does not come before. -/
def Meets (entry : Option Cost) (bound : Cost) : Prop :=
  ∃ cost, entry = some cost ∧ cost.AtMost bound

theorem Meets.weaken {entry : Option Cost} {bound higher : Cost} (met : Meets entry bound)
    (above : bound.AtMost higher) : Meets entry higher := by
  obtain ⟨cost, known, low⟩ := met
  exact ⟨cost, known, low.trans above⟩

theorem Meets.sum {left right : Option Cost} {leftBound rightBound : Cost}
    (first : Meets left leftBound) (second : Meets right rightBound) :
    Meets (Cost.sum left right) (leftBound.add rightBound) := by
  obtain ⟨leftCost, rfl, leftLow⟩ := first
  obtain ⟨rightCost, rfl, rightLow⟩ := second
  exact ⟨leftCost.add rightCost, rfl, leftLow.add rightLow⟩

theorem sum_eq_some_iff {left right : Option Cost} {cost : Cost} :
    Cost.sum left right = some cost ↔
      ∃ first second, left = some first ∧ right = some second ∧ first.add second = cost := by
  cases left <;> cases right <;> simp [Cost.sum]

theorem add_zero (cost : Cost) : cost.add zero = cost := by
  simp [add, zero]

theorem sum_zero (total : Option Cost) : Cost.sum total (some zero) = total := by
  cases total with
  | none => rfl
  | some cost => exact congrArg some cost.add_zero

theorem sum_assoc (first second third : Option Cost) :
    Cost.sum (Cost.sum first second) third = Cost.sum first (Cost.sum second third) := by
  cases first <;> cases second <;> cases third <;>
    simp [Cost.sum, Cost.add, Int.add_assoc, Nat.add_assoc]

/-- The better of two entries, the known one where they are equally good. -/
def better (found known : Option Cost) : Option Cost :=
  if improves found known then found else known

theorem better_cases (found known : Option Cost) :
    better found known = found ∨ better found known = known := by
  unfold better
  split
  · exact Or.inl rfl
  · exact Or.inr rfl

theorem Meets.of_unimproved {entry other : Option Cost} {bound : Cost} (met : Meets other bound)
    (unimproved : improves other entry = false) : Meets entry bound := by
  obtain ⟨cost, rfl, low⟩ := met
  cases entry with
  | none => cases unimproved
  | some known =>
      have kept : ¬ cost.before known = true := by simpa [improves] using unimproved
      rw [before_iff, not_not] at kept
      exact ⟨known, rfl, kept.trans low⟩

theorem meets_iff {entry : Option Cost} {bound : Cost} :
    Meets entry bound ↔ improves (some bound) entry = false := by
  constructor
  · intro met
    obtain ⟨cost, rfl, low⟩ := met
    have kept : ¬ bound.before cost = true := by
      rw [before_iff, not_not]
      exact low
    simpa [improves] using kept
  · exact Meets.of_unimproved ⟨bound, rfl, .refl bound⟩

instance (entry : Option Cost) (bound : Cost) : Decidable (Meets entry bound) :=
  decidable_of_iff _ meets_iff.symm

theorem improves_asymm {entry other : Option Cost} (improved : improves entry other) :
    improves other entry = false := by
  cases entry with
  | none => cases improved
  | some new =>
      cases other with
      | none => rfl
      | some old =>
          have ordered : ¬ old.AtMost new := before_iff.1 improved
          exact meets_iff.1 ⟨new, rfl, (AtMost.total new old).resolve_right ordered⟩

theorem better_meets_found {found known : Option Cost} {bound : Cost} (met : Meets found bound) :
    Meets (better found known) bound := by
  unfold better
  split
  · exact met
  · rename_i unimproved
    exact met.of_unimproved (by simpa using unimproved)

theorem better_meets_known {found known : Option Cost} {bound : Cost} (met : Meets known bound) :
    Meets (better found known) bound := by
  unfold better
  split
  · rename_i improved
    exact met.of_unimproved (improves_asymm improved)
  · exact met

end Cost

namespace DerivationTree

variable {grammar : Grammar} {costs : TokenCosts}

/-- The cost of several trees together. -/
def totalCost (costs : TokenCosts) (trees : List DerivationTree) : Cost :=
  trees.foldr (fun tree rest => (tree.cost costs).add rest) Cost.zero

theorem total_cost_eq (trees : List DerivationTree) :
    totalCost costs trees =
      ⟨((trees.flatMap leaves).map costs.of).sum, expansionCountAll trees⟩ := by
  induction trees with
  | nil => rfl
  | cons tree rest ih =>
      change (tree.cost costs).add (totalCost costs rest) = _
      rw [ih]
      simp [Cost.add, cost, expansionCountAll]

theorem total_tokens_eq_sum (trees : List DerivationTree) :
    ((trees.flatMap leaves).map costs.of).sum =
      (trees.map fun tree => (tree.cost costs).tokens).sum := by
  induction trees with
  | nil => rfl
  | cons tree rest ih =>
      rw [List.flatMap_cons, List.map_append, List.sum_append, ih]
      rfl

theorem cost_leaf {symbol : Symbol} (terminal : symbol.isTerminal) :
    (leaf symbol).cost costs = ⟨costs.of symbol, 0⟩ := by
  rw [cost, leaves_leaf terminal]
  simp [leaf, expansionCount, expansionCountAll, terminal]

theorem expansion_count_node {symbol : Symbol} {production : Option Production}
    {children : List DerivationTree} (nonterminal : symbol.isTerminal = false) :
    expansionCount (.node ⟨symbol, production⟩ children) = 1 + expansionCountAll children := by
  simp [expansionCount, nonterminal]

theorem cost_node {symbol : Symbol} {production : Option Production}
    {children : List DerivationTree} (nonterminal : symbol.isTerminal = false) :
    cost costs (.node ⟨symbol, production⟩ children) =
      Cost.add ⟨0, 1⟩ (totalCost costs children) := by
  simp [cost, Cost.add, total_cost_eq, leaves_node nonterminal, expansion_count_node nonterminal]

theorem expansion_count_le_all {tree : DerivationTree} {trees : List DerivationTree}
    (member : tree ∈ trees) : tree.expansionCount ≤ expansionCountAll trees := by
  rw [expansion_count_all_eq_sum]
  exact List.le_sum_of_mem (List.mem_map_of_mem member)

namespace Complete

theorem of_nonterminal_root {tree : DerivationTree} (complete : Complete grammar tree)
    (nonterminal : tree.root.isTerminal = false) :
    ∃ production children, tree = .node ⟨production.lhs, some production⟩ children ∧
      production ∈ grammar.productions ∧ Forest grammar production.rhs children := by
  cases complete with
  | token terminal =>
      rw [root, leaf, RoseTree.label, terminal] at nonterminal
      cases nonterminal
  | expansion member _ body complete => exact ⟨_, _, rfl, member, body, complete⟩

theorem of_terminal_root {tree : DerivationTree} (complete : Complete grammar tree)
    (terminal : tree.root.isTerminal) : tree = leaf tree.root := by
  cases complete with
  | token _ => rfl
  | expansion _ nonterminal _ _ =>
      rw [root, RoseTree.label, nonterminal] at terminal
      cases terminal

end Complete

end DerivationTree

namespace TokenCosts

/-- No terminal of the grammar has a negative cost. -/
def Signed (costs : TokenCosts) (grammar : Grammar) : Prop :=
  ∀ terminal ∈ grammar.terminals, 0 ≤ costs.of terminal

theorem check_terminals_iff {costs : TokenCosts} {grammar : Grammar} :
    costs.checkTerminals grammar = .ok () ↔ costs.Signed grammar := by
  unfold checkTerminals Signed
  split
  · rename_i terminal found
    have negative := List.find?_some found
    have member := List.mem_of_find?_eq_some found
    simp only [decide_eq_true_eq] at negative
    constructor
    · intro accepted
      cases accepted
    · intro signed
      have := signed terminal member
      omega
  · rename_i absent
    rw [List.find?_eq_none] at absent
    constructor
    · intro _ terminal member
      have := absent terminal member
      simpa using this
    · exact fun _ => rfl

variable {costs : TokenCosts} {grammar : Grammar}

theorem Signed.sum_nonneg (signed : costs.Signed grammar) {tokens : List Symbol}
    (terminals : ∀ token ∈ tokens, token ∈ grammar.terminals) :
    0 ≤ (tokens.map costs.of).sum := by
  apply List.sum_nonneg
  intro amount member
  obtain ⟨token, among, rfl⟩ := List.mem_map.1 member
  exact signed token (terminals token among)

/-- What some terminals are charged, by keys that tell them apart. -/
def chargesBy {κ : Type} (key : Symbol → κ) (charge : Symbol → Int) (terminals : List Symbol)
    (apart : (terminals.map key).Nodup) : Register κ Int where
  entries := terminals.map fun terminal => (key terminal, charge terminal)
  once := by
    rw [List.map_map]
    exact apart

theorem find_charge {κ : Type} [DecidableEq κ] {key : Symbol → κ} {terminals : List Symbol}
    (apart : (terminals.map key).Nodup) (charge : Symbol → Int) {terminal : Symbol}
    (member : terminal ∈ terminals) :
    (chargesBy key charge terminals apart).find? (key terminal) = some (charge terminal) := by
  have found : terminals.find? (fun other => key other = key terminal) = some terminal := by
    cases search : terminals.find? (fun other => key other = key terminal) with
    | none =>
        have absent := List.find?_eq_none.1 search terminal member
        exact absurd (decide_eq_true rfl) absent
    | some other =>
        have same : key other = key terminal := by simpa using List.find?_some search
        have known := List.mem_of_find?_eq_some search
        exact congrArg some (List.inj_on_of_nodup_map apart known member same)
  change (List.find? _ (terminals.map _)).map _ = _
  rw [List.find?_map]
  change ((terminals.find? fun other => key other = key terminal).map _).map _ = _
  rw [found]
  rfl

theorem charges_listed {terminals : List Symbol} (distinct : (terminals.map (·.name)).Nodup)
    (charge : Symbol → Int) :
    ∃ costs : TokenCosts, ∀ terminal ∈ terminals, costs.of terminal = charge terminal := by
  refine ⟨{ listed := chargesBy _ charge terminals distinct }, ?_⟩
  intro terminal member
  have found := find_charge distinct charge member
  exact congrArg (Option.getD · _) found

theorem charges_numbered (whole : grammar.WellFormed) (charge : Symbol → Int) :
    ∃ costs : TokenCosts, ∀ terminal ∈ grammar.terminals,
      costs.of terminal = charge terminal := by
  have apart : (grammar.terminals.map (·.index)).Nodup :=
    whole.terminals_numbered.ascending.map _ fun _ _ before => ne_of_lt before
  refine ⟨{ numbered := chargesBy _ charge grammar.terminals apart }, ?_⟩
  intro terminal member
  have found := find_charge apart charge member
  unfold TokenCosts.of
  rw [found]
  rfl

theorem Signed.tree_tokens (signed : costs.Signed grammar) (whole : grammar.WellFormed)
    {tree : DerivationTree} (complete : DerivationTree.Complete grammar tree)
    (known : grammar.Knows tree.root) : 0 ≤ (tree.cost costs).tokens := by
  apply signed.sum_nonneg
  intro token member
  exact whole.terminal_known (complete.leaves_known whole known token member)
    (complete.leaves_are_terminals token member)

theorem Signed.child_before (signed : costs.Signed grammar) (whole : grammar.WellFormed)
    {production : Production} {children : List DerivationTree}
    (member : production ∈ grammar.productions)
    (forest : DerivationTree.Forest grammar production.rhs children)
    {child : DerivationTree} (among : child ∈ children) :
    ¬ (DerivationTree.cost costs (.node ⟨production.lhs, some production⟩ children)).AtMost
      (child.cost costs) := by
  have nonterminal := whole.nonterminal_kind (whole.heads_known production member)
  have eachSigned : ∀ amount ∈ children.map (fun tree => (tree.cost costs).tokens), 0 ≤ amount := by
    intro amount found
    obtain ⟨tree, below, rfl⟩ := List.mem_map.1 found
    exact signed.tree_tokens whole (forest.complete tree below)
      (whole.body_known member _ (forest.root_mem below))
  have tokens := List.single_le_sum eachSigned _ (List.mem_map_of_mem among)
  have expansions := DerivationTree.expansion_count_le_all among
  rw [DerivationTree.cost_node nonterminal, DerivationTree.total_cost_eq]
  rw [← DerivationTree.total_tokens_eq_sum] at tokens
  simp only [Cost.AtMost, Cost.add, DerivationTree.cost] at *
  omega

end TokenCosts

end GrammarKit
