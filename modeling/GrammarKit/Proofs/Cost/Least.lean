import GrammarKit.Proofs.Cost.Order
import GrammarKit.Proofs.Saturation
import Mathlib.Data.Finset.Card

/-!
# Entries of the cost table are least

Each entry is the cost of some complete tree, so no entry is too low. For the other direction take a
nonterminal whose entry lies above one of its trees, and among all such trees one of least cost. Its
subtrees cost less, so their entries are low enough already, and the next pass brings its root down
to its cost. Every pass settles at least one nonterminal that way, and those that are settled stay
so. The passes are as many as there are nonterminals and one more.
-/

namespace GrammarKit

set_option autoImplicit false

open DerivationTree

/-- The least cost of the complete trees of a symbol, which has to have one. -/
def LeastCost (grammar : Grammar) (costs : TokenCosts) (symbol : Symbol) (least : Cost) : Prop :=
  (∃ tree, Complete grammar tree ∧ tree.root = symbol ∧ tree.cost costs = least) ∧
    ∀ tree, Complete grammar tree → tree.root = symbol → least.AtMost (tree.cost costs)

theorem LeastCost.unique {grammar : Grammar} {costs : TokenCosts} {symbol : Symbol}
    {left right : Cost} (first : LeastCost grammar costs symbol left)
    (second : LeastCost grammar costs symbol right) : left = right := by
  obtain ⟨⟨leftTree, leftComplete, leftRoot, rfl⟩, leftLeast⟩ := first
  obtain ⟨⟨rightTree, rightComplete, rightRoot, rfl⟩, rightLeast⟩ := second
  exact (leftLeast rightTree rightComplete rightRoot).antisymm
    (rightLeast leftTree leftComplete leftRoot)

namespace CostTable

variable {grammar : Grammar} {costs : TokenCosts} {table : CostTable} {symbol : Symbol}

section Reading

theorem of_symbol_terminal (terminal : symbol.isTerminal) :
    table.ofSymbol costs symbol = some ⟨costs.of symbol, 0⟩ := if_pos terminal

theorem of_symbol_nonterminal (nonterminal : symbol.isTerminal = false) :
    table.ofSymbol costs symbol = table.costAt symbol.index := by
  rw [ofSymbol, nonterminal]
  rfl

theorem cost_at_learn (whole : grammar.WellFormed)
    (size : table.entries.length = grammar.nonterminals.length) {production : Production}
    (head : production.lhs ∈ grammar.nonterminals) (member : symbol ∈ grammar.nonterminals) :
    (learn costs table production).costAt symbol.index =
      if symbol = production.lhs then
        Cost.better (table.ofProduction costs production) (table.costAt symbol.index)
      else table.costAt symbol.index := by
  unfold costAt learn
  rw [whole.item_after_amend size head member]
  split
  · obtain ⟨entry, _, found⟩ := whole.item_found size member
    rw [found]
    rfl
  · rfl

theorem learn_size (production : Production) :
    (learn costs table production).entries.length = table.entries.length :=
  length_amend table.entries production.lhs.index _

theorem forest_of_entries {Fitting : DerivationTree → Prop} {form : List Symbol}
    (attained : ∀ symbol ∈ form, ∀ cost, table.ofSymbol costs symbol = some cost →
      ∃ tree, Complete grammar tree ∧ tree.root = symbol ∧ tree.cost costs = cost ∧ Fitting tree)
    {cost : Cost} (found : table.ofSequence costs form = some cost) :
    ∃ trees, Forest grammar form trees ∧ totalCost costs trees = cost ∧
      ∀ tree ∈ trees, Fitting tree := by
  induction form generalizing cost with
  | nil => exact ⟨[], Forest.nil, Option.some.inj found, by simp⟩
  | cons symbol rest ih =>
      obtain ⟨first, second, head, tail, rfl⟩ := Cost.sum_eq_some_iff.1 found
      obtain ⟨tree, complete, rfl, rfl, fits⟩ := attained symbol (by simp) first head
      obtain ⟨trees, forest, rfl, others⟩ :=
        ih (fun other member => attained other (by simp [member])) tail
      refine ⟨tree :: trees, Forest.cons complete forest, rfl, ?_⟩
      intro other member
      rcases List.mem_cons.1 member with rfl | among
      · exact fits
      · exact others other among

end Reading

section Soundness

/-- Each known entry is the cost of a complete tree. -/
structure Sound (grammar : Grammar) (costs : TokenCosts) (table : CostTable) : Prop where
  size : table.entries.length = grammar.nonterminals.length
  earned : ∀ symbol ∈ grammar.nonterminals, ∀ cost, table.costAt symbol.index = some cost →
    ∃ tree, Complete grammar tree ∧ tree.root = symbol ∧ tree.cost costs = cost

theorem Sound.of_symbol (sound : Sound grammar costs table) (whole : grammar.WellFormed)
    (known : grammar.Knows symbol) {cost : Cost} (found : table.ofSymbol costs symbol = some cost) :
    ∃ tree, Complete grammar tree ∧ tree.root = symbol ∧ tree.cost costs = cost := by
  cases kind : symbol.isTerminal with
  | true =>
      rw [of_symbol_terminal kind, Option.some.injEq] at found
      exact ⟨leaf symbol, .token kind, rfl, (cost_leaf kind).trans found⟩
  | false =>
      rw [of_symbol_nonterminal kind] at found
      exact sound.earned symbol (whole.nonterminal_known known kind) cost found

theorem Sound.of_sequence (sound : Sound grammar costs table) (whole : grammar.WellFormed)
    {form : List Symbol} (known : grammar.KnowsAll form) {cost : Cost}
    (found : table.ofSequence costs form = some cost) :
    ∃ trees, Forest grammar form trees ∧ totalCost costs trees = cost := by
  have attained : ∀ symbol ∈ form, ∀ cost, table.ofSymbol costs symbol = some cost →
      ∃ tree, Complete grammar tree ∧ tree.root = symbol ∧ tree.cost costs = cost ∧ True := by
    intro symbol member cost entry
    obtain ⟨tree, complete, start, same⟩ := sound.of_symbol whole (known symbol member) entry
    exact ⟨tree, complete, start, same, trivial⟩
  obtain ⟨trees, forest, same, _⟩ := forest_of_entries attained found
  exact ⟨trees, forest, same⟩

theorem Sound.of_production (sound : Sound grammar costs table) (whole : grammar.WellFormed)
    {production : Production} (member : production ∈ grammar.productions) {cost : Cost}
    (found : table.ofProduction costs production = some cost) :
    ∃ tree, Complete grammar tree ∧ tree.root = production.lhs ∧ tree.cost costs = cost := by
  have nonterminal := whole.nonterminal_kind (whole.heads_known production member)
  obtain ⟨first, second, single, body, rfl⟩ := Cost.sum_eq_some_iff.1 found
  obtain rfl := Option.some.inj single
  obtain ⟨trees, forest, rfl⟩ := sound.of_sequence whole (whole.body_known member) body
  exact ⟨_, forest.expansion whole member, rfl, cost_node nonterminal⟩

theorem Sound.after_learn (sound : Sound grammar costs table) (whole : grammar.WellFormed)
    {production : Production} (member : production ∈ grammar.productions) :
    Sound grammar costs (learn costs table production) := by
  have head := whole.heads_known production member
  refine ⟨(learn_size production).trans sound.size, ?_⟩
  intro symbol among cost found
  rw [cost_at_learn whole sound.size head among] at found
  split at found
  · rename_i same
    subst same
    rcases Cost.better_cases (table.ofProduction costs production)
      (table.costAt production.lhs.index) with new | old
    · rw [new] at found
      exact sound.of_production whole member found
    · rw [old] at found
      exact sound.earned _ among cost found
  · exact sound.earned symbol among cost found

theorem blank_size (grammar : Grammar) :
    (blank grammar).entries.length = grammar.nonterminals.length := List.length_map _

theorem blank_cost_at (whole : grammar.WellFormed) (member : symbol ∈ grammar.nonterminals) :
    (blank grammar).costAt symbol.index = none := by
  obtain ⟨entry, among, read⟩ := whole.item_found (blank_size grammar) member
  obtain ⟨_, _, rfl⟩ := List.mem_map.1 among
  rw [costAt, read]
  rfl

theorem blank_sound (whole : grammar.WellFormed) : Sound grammar costs (blank grammar) := by
  refine ⟨blank_size grammar, ?_⟩
  intro symbol member cost found
  rw [blank_cost_at whole member] at found
  cases found

theorem settled_sound (whole : grammar.WellFormed) :
    Sound grammar costs (ofGrammar grammar costs) := by
  apply settled_fold_keeps _ _ (blank_sound whole)
  intro production member table sound
  exact sound.after_learn whole member

end Soundness

section Progress

/-- The entry of the root is at most the cost of the tree. -/
def Covers (costs : TokenCosts) (table : CostTable) (tree : DerivationTree) : Prop :=
  Cost.Meets (table.ofSymbol costs tree.root) (tree.cost costs)

/-- No entry has been raised. -/
structure Lowers (grammar : Grammar) (old new : CostTable) : Prop where
  size : new.entries.length = grammar.nonterminals.length
  lower : ∀ symbol ∈ grammar.nonterminals, ∀ bound,
    Cost.Meets (old.costAt symbol.index) bound → Cost.Meets (new.costAt symbol.index) bound

theorem Lowers.refl (size : table.entries.length = grammar.nonterminals.length) :
    Lowers grammar table table := ⟨size, fun _ _ _ met => met⟩

theorem Lowers.after_learn {old : CostTable} (lowered : Lowers grammar old table)
    (whole : grammar.WellFormed) {production : Production}
    (head : production.lhs ∈ grammar.nonterminals) :
    Lowers grammar old (learn costs table production) := by
  refine ⟨(learn_size production).trans lowered.size, ?_⟩
  intro symbol member bound met
  have now := lowered.lower symbol member bound met
  rw [cost_at_learn whole lowered.size head member]
  split
  · exact Cost.better_meets_known now
  · exact now

theorem fold_lowers (whole : grammar.WellFormed)
    (size : table.entries.length = grammar.nonterminals.length) {productions : List Production}
    (heads : ∀ production ∈ productions, production.lhs ∈ grammar.nonterminals) :
    Lowers grammar table (productions.foldl (learn costs) table) :=
  fold_keeps (motive := Lowers grammar table)
    (fun production member _ lowered => lowered.after_learn whole (heads production member))
    (Lowers.refl size)

theorem Covers.of_terminal {tree : DerivationTree} (complete : Complete grammar tree)
    (terminal : tree.root.isTerminal) : Covers costs table tree := by
  rw [complete.of_terminal_root terminal]
  exact ⟨_, of_symbol_terminal terminal, (cost_leaf terminal) ▸ .refl _⟩

theorem Covers.after {old : CostTable} {tree : DerivationTree} (covered : Covers costs old tree)
    (lowered : Lowers grammar old table) (whole : grammar.WellFormed)
    (known : grammar.Knows tree.root) : Covers costs table tree := by
  unfold Covers at *
  cases kind : tree.root.isTerminal with
  | true =>
      rw [of_symbol_terminal kind] at *
      exact covered
  | false =>
      rw [of_symbol_nonterminal kind] at *
      exact lowered.lower _ (whole.nonterminal_known known kind) _ covered

theorem of_sequence_meets {trees : List DerivationTree}
    (covered : ∀ tree ∈ trees, Covers costs table tree) :
    Cost.Meets (table.ofSequence costs (trees.map root)) (totalCost costs trees) := by
  induction trees with
  | nil => exact ⟨Cost.zero, rfl, .refl _⟩
  | cons tree rest ih =>
      have later := ih (fun other member => covered other (by simp [member]))
      exact Cost.Meets.sum (covered tree (by simp)) later

/-- A pass brings a root down to the cost of its tree when the subtrees are covered before it. -/
theorem pass_covers (whole : grammar.WellFormed)
    (size : table.entries.length = grammar.nonterminals.length) {production : Production}
    {children : List DerivationTree} (member : production ∈ grammar.productions)
    (forest : Forest grammar production.rhs children)
    (covered : ∀ child ∈ children, Covers costs table child) :
    Covers costs (pass costs grammar.productions table)
      (.node ⟨production.lhs, some production⟩ children) := by
  have head := whole.heads_known production member
  have nonterminal := whole.nonterminal_kind head
  obtain ⟨before, after, split⟩ := List.append_of_mem member
  have heads : ∀ other ∈ before ++ production :: after, other.lhs ∈ grammar.nonterminals := by
    rw [← split]
    exact whole.heads_known
  have earlier : Lowers grammar table (before.foldl (learn costs) table) :=
    fold_lowers whole size (fun other among => heads other (List.mem_append_left _ among))
  -- What the production finds is at most the cost of the tree, and the rest of the pass keeps it.
  have found : Cost.Meets
      ((before.foldl (learn costs) table).ofProduction costs production)
      (Cost.add ⟨0, 1⟩ (totalCost costs children)) := by
    have body := of_sequence_meets (fun child among =>
      (covered child among).after earlier whole
        (whole.body_known member _ (forest.root_mem among)))
    rw [forest.roots] at body
    exact Cost.Meets.sum ⟨⟨0, 1⟩, rfl, .refl _⟩ body
  have learnt : Cost.Meets
      ((learn costs (before.foldl (learn costs) table) production).costAt production.lhs.index)
      (Cost.add ⟨0, 1⟩ (totalCost costs children)) := by
    rw [cost_at_learn whole earlier.size head head, if_pos rfl]
    exact Cost.better_meets_found found
  have later : Lowers grammar (learn costs (before.foldl (learn costs) table) production)
      (after.foldl (learn costs) (learn costs (before.foldl (learn costs) table) production)) :=
    fold_lowers whole ((learn_size production).trans earlier.size)
      (fun other among => heads other (by simp [among]))
  have final := later.lower production.lhs head _ learnt
  rw [pass, split, List.foldl_append, List.foldl_cons, Covers, cost_node nonterminal]
  rw [← of_symbol_nonterminal nonterminal] at final
  exact final

/-- Some tree of the nonterminal costs less than its entry. -/
def Unsettled (grammar : Grammar) (costs : TokenCosts) (table : CostTable) (symbol : Symbol) :
    Prop :=
  ∃ tree, Complete grammar tree ∧ tree.root = symbol ∧ ¬ Covers costs table tree

theorem pass_lowers (whole : grammar.WellFormed)
    (size : table.entries.length = grammar.nonterminals.length) :
    Lowers grammar table (pass costs grammar.productions table) :=
  fold_lowers whole size whole.heads_known

theorem Unsettled.before_pass (whole : grammar.WellFormed)
    (size : table.entries.length = grammar.nonterminals.length)
    (member : symbol ∈ grammar.nonterminals)
    (unsettled : Unsettled grammar costs (pass costs grammar.productions table) symbol) :
    Unsettled grammar costs table symbol := by
  obtain ⟨tree, complete, rfl, above⟩ := unsettled
  refine ⟨tree, complete, rfl, ?_⟩
  intro covered
  exact above (covered.after (pass_lowers whole size) whole (Or.inr member))

/-- The root of a cheapest tree that is not covered is settled by the next pass. -/
theorem pass_settles (whole : grammar.WellFormed) (signed : costs.Signed grammar)
    (size : table.entries.length = grammar.nonterminals.length)
    (member : symbol ∈ grammar.nonterminals) (unsettled : Unsettled grammar costs table symbol) :
    ∃ target ∈ grammar.nonterminals, Unsettled grammar costs table target ∧
      ¬ Unsettled grammar costs (pass costs grammar.productions table) target := by
  obtain ⟨tree, complete, start, above⟩ := unsettled
  have signedTrees : ∀ cost, (∃ tree, Complete grammar tree ∧ grammar.Knows tree.root ∧
      ¬ Covers costs table tree ∧ tree.cost costs = cost) → 0 ≤ cost.tokens := by
    intro cost reached
    rcases reached with ⟨other, otherComplete, known, _, rfl⟩
    exact signed.tree_tokens whole otherComplete known
  obtain ⟨_, ⟨cheapest, cheapestComplete, known, uncovered, rfl⟩, least⟩ :=
    Cost.exists_least signedTrees ⟨_, tree, complete, start ▸ Or.inr member, above, rfl⟩
  have nonterminal : cheapest.root.isTerminal = false := by
    by_contra terminal
    rw [Bool.not_eq_false] at terminal
    exact uncovered (.of_terminal cheapestComplete terminal)
  obtain ⟨production, children, rfl, applied, forest⟩ :=
    cheapestComplete.of_nonterminal_root nonterminal
  have head := whole.heads_known production applied
  have covered : ∀ child ∈ children, Covers costs table child := by
    intro child among
    by_contra missed
    exact signed.child_before whole applied forest among
      (least _ ⟨child, forest.complete child among,
        whole.body_known applied _ (forest.root_mem among), missed, rfl⟩)
  have after := pass_covers whole size applied forest covered
  refine ⟨production.lhs, head, ⟨_, cheapestComplete, rfl, uncovered⟩, ?_⟩
  intro tree
  rcases tree with ⟨other, otherComplete, otherRoot, otherAbove⟩
  apply otherAbove
  by_cases already : Covers costs table other
  · exact already.after (pass_lowers whole size) whole (otherRoot ▸ Or.inr head)
  · have higher := least _ ⟨other, otherComplete, otherRoot ▸ Or.inr head, already, rfl⟩
    unfold Covers
    rw [otherRoot]
    exact Cost.Meets.weaken after higher

open Classical in
/-- The nonterminals that are not settled yet. -/
noncomputable def pendingSet (grammar : Grammar) (costs : TokenCosts) (table : CostTable) :
    Finset Symbol :=
  grammar.nonterminals.toFinset.filter (Unsettled grammar costs table)

theorem mem_pending_set_iff : symbol ∈ pendingSet grammar costs table ↔
    symbol ∈ grammar.nonterminals ∧ Unsettled grammar costs table symbol := by
  classical
  unfold pendingSet
  rw [Finset.mem_filter, List.mem_toFinset]

noncomputable def lack (grammar : Grammar) (costs : TokenCosts) (table : CostTable) : Nat :=
  (pendingSet grammar costs table).card

theorem lack_le (table : CostTable) : lack grammar costs table ≤ grammar.nonterminals.length := by
  classical
  exact (Finset.card_filter_le _ _).trans (List.toFinset_card_le _)

theorem pass_lowers_lack (whole : grammar.WellFormed) (signed : costs.Signed grammar)
    (size : table.entries.length = grammar.nonterminals.length) :
    lack grammar costs (pass costs grammar.productions table) ≤ lack grammar costs table - 1 := by
  have included : pendingSet grammar costs (pass costs grammar.productions table) ⊆
      pendingSet grammar costs table := by
    intro symbol among
    rw [mem_pending_set_iff] at *
    exact ⟨among.1, among.2.before_pass whole size among.1⟩
  by_cases settled : pendingSet grammar costs table = ∅
  · rw [settled, Finset.subset_empty] at included
    simp [lack, included]
  · obtain ⟨symbol, among⟩ := Finset.nonempty_iff_ne_empty.2 settled
    rcases mem_pending_set_iff.1 among with ⟨member, unsettled⟩
    obtain ⟨target, known, before, after⟩ := pass_settles whole signed size member unsettled
    have present := mem_pending_set_iff.2 ⟨known, before⟩
    have absent : target ∉ pendingSet grammar costs (pass costs grammar.productions table) := by
      intro still
      exact after (mem_pending_set_iff.1 still).2
    have strict := Finset.card_lt_card (Finset.ssubset_iff_of_subset included |>.2
      ⟨target, present, absent⟩)
    unfold lack
    omega

theorem settled_covers (whole : grammar.WellFormed) (signed : costs.Signed grammar)
    {tree : DerivationTree} (complete : Complete grammar tree)
    (known : tree.root ∈ grammar.nonterminals) : Covers costs (ofGrammar grammar costs) tree := by
  have exhausted : lack grammar costs (ofGrammar grammar costs) = 0 :=
    settle_exhausts
      (motive := fun table => table.entries.length = grammar.nonterminals.length)
      (fun _ size => (pass_lowers whole size).size)
      (fun _ size => pass_lowers_lack whole signed size)
      (blank_size grammar) ((lack_le _).trans (Nat.le_succ _))
  have settled := Finset.card_eq_zero.1 exhausted
  by_contra above
  have waiting : tree.root ∈ pendingSet grammar costs (ofGrammar grammar costs) :=
    mem_pending_set_iff.2 ⟨known, tree, complete, rfl, above⟩
  rw [settled] at waiting
  exact absurd waiting (Finset.notMem_empty _)

end Progress

theorem least_of_cost_at (whole : grammar.WellFormed) (signed : costs.Signed grammar)
    (member : symbol ∈ grammar.nonterminals) {cost : Cost}
    (found : (ofGrammar grammar costs).costAt symbol.index = some cost) :
    LeastCost grammar costs symbol cost := by
  refine ⟨(settled_sound whole).earned symbol member cost found, ?_⟩
  intro tree complete same
  subst same
  obtain ⟨entry, read, low⟩ := settled_covers whole signed complete member
  rw [of_symbol_nonterminal (whole.nonterminal_kind member), found, Option.some.injEq] at read
  exact read ▸ low

theorem cost_at_of_complete (whole : grammar.WellFormed) (signed : costs.Signed grammar)
    {tree : DerivationTree} (complete : Complete grammar tree)
    (known : tree.root ∈ grammar.nonterminals) :
    ∃ cost, (ofGrammar grammar costs).costAt tree.root.index = some cost := by
  obtain ⟨cost, read, _⟩ := settled_covers whole signed complete known
  rw [of_symbol_nonterminal (whole.nonterminal_kind known)] at read
  exact ⟨cost, read⟩

section Productions

variable {production : Production} {cost : Cost}

theorem at_most_of_production (whole : grammar.WellFormed) (signed : costs.Signed grammar)
    (listed : production ∈ grammar.productions)
    (entry : (ofGrammar grammar costs).costAt production.lhs.index = some cost) {found : Cost}
    (known : (ofGrammar grammar costs).ofProduction costs production = some found) :
    cost.AtMost found := by
  have head := whole.heads_known production listed
  obtain ⟨tree, complete, start, rfl⟩ := (settled_sound whole).of_production whole listed known
  exact (least_of_cost_at whole signed head entry).2 tree complete start

theorem production_of_cost_at (whole : grammar.WellFormed) (signed : costs.Signed grammar)
    (member : symbol ∈ grammar.nonterminals)
    (entry : (ofGrammar grammar costs).costAt symbol.index = some cost) :
    ∃ production ∈ grammar.productions, production.lhs = symbol ∧
      (ofGrammar grammar costs).ofProduction costs production = some cost := by
  have nonterminal := whole.nonterminal_kind member
  obtain ⟨⟨tree, complete, rfl, rfl⟩, _⟩ := least_of_cost_at whole signed member entry
  obtain ⟨production, children, rfl, listed, forest⟩ := complete.of_nonterminal_root nonterminal
  have covered : ∀ child ∈ children, Covers costs (ofGrammar grammar costs) child := by
    intro child among
    have below := forest.complete child among
    cases kind : (root child).isTerminal with
    | true => exact .of_terminal below kind
    | false =>
        have known := whole.body_known listed _ (forest.root_mem among)
        exact settled_covers whole signed below (whole.nonterminal_known known kind)
  have body := of_sequence_meets covered
  rw [forest.roots] at body
  have first : Cost.Meets (some ⟨0, 1⟩) ⟨0, 1⟩ := ⟨_, rfl, .refl _⟩
  obtain ⟨found, known, low⟩ := first.sum body
  rw [← cost_node nonterminal] at low
  have high := at_most_of_production whole signed listed entry known
  exact ⟨production, listed, rfl, known.trans (congrArg some (low.antisymm high))⟩

theorem part_before (whole : grammar.WellFormed) (signed : costs.Signed grammar)
    (listed : production ∈ grammar.productions)
    (found : (ofGrammar grammar costs).ofProduction costs production = some cost)
    {part : Symbol} (occurs : part ∈ production.rhs) {entry : Cost}
    (known : (ofGrammar grammar costs).ofSymbol costs part = some entry) : ¬ cost.AtMost entry := by
  have nonterminal := whole.nonterminal_kind (whole.heads_known production listed)
  obtain ⟨first, second, single, body, rfl⟩ := Cost.sum_eq_some_iff.1 found
  obtain rfl := Option.some.inj single
  have attained : ∀ symbol ∈ production.rhs, ∀ amount,
      (ofGrammar grammar costs).ofSymbol costs symbol = some amount →
        ∃ tree, Complete grammar tree ∧ tree.root = symbol ∧ tree.cost costs = amount ∧
          (ofGrammar grammar costs).ofSymbol costs tree.root = some (tree.cost costs) := by
    intro symbol member amount read
    obtain ⟨tree, complete, rfl, rfl⟩ :=
      (settled_sound whole).of_symbol whole (whole.body_known listed symbol member) read
    exact ⟨tree, complete, rfl, rfl, read⟩
  obtain ⟨trees, forest, rfl, entries⟩ := forest_of_entries attained body
  rw [← forest.roots] at occurs
  obtain ⟨child, among, rfl⟩ := List.mem_map.1 occurs
  rw [entries child among, Option.some.injEq] at known
  have less := signed.child_before whole listed forest among
  rw [cost_node nonterminal, known] at less
  exact less

end Productions

end CostTable

end GrammarKit
