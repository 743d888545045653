import GrammarKit.Proofs.Generator.Cheapest
import GrammarKit.Proofs.Generator.Fruitful

/-!
# The dearest text

Known costs start from nothing and are never lowered. Every known cost is reached by the cost of
some complete tree. Each pass completes the trees that are one step higher, and without recursion no
tree is higher than there are nonterminals. So for a nonterminal that does not recur, the cost that
is known in the end is the greatest cost of its texts.
-/

namespace GrammarKit

set_option autoImplicit false

open DerivationTree

namespace Grammar

variable {grammar : Grammar} {costs : TokenCosts} {symbol : Symbol}

/-- The greatest cost of the texts of a symbol, which has to have one. -/
def DearestText (grammar : Grammar) (costs : TokenCosts) (symbol : Symbol) (greatest : Int) :
    Prop :=
  (∃ text, grammar.Generates symbol text ∧ textCost costs text = greatest) ∧
    ∀ text, grammar.Generates symbol text → textCost costs text ≤ greatest

theorem text_cost_append (costs : TokenCosts) (left right : List Symbol) :
    textCost costs (left ++ right) = textCost costs left + textCost costs right := by
  simp [textCost]

theorem DearestText.unique {greatest other : Int}
    (left : grammar.DearestText costs symbol greatest)
    (right : grammar.DearestText costs symbol other) : greatest = other := by
  obtain ⟨⟨text, generated, rfl⟩, high⟩ := left
  obtain ⟨⟨further, found, rfl⟩, top⟩ := right
  exact Int.le_antisymm (top text generated) (high further found)

theorem DearestText.of_trees (whole : grammar.WellFormed) {greatest : Int}
    (attained : ∃ tree, Complete grammar tree ∧ tree.root = symbol ∧
      greatest ≤ textCost costs tree.leaves)
    (bounded : ∀ tree, Complete grammar tree → tree.root = symbol →
      textCost costs tree.leaves ≤ greatest) : grammar.DearestText costs symbol greatest := by
  constructor
  · obtain ⟨tree, complete, rfl, high⟩ := attained
    have low := bounded tree complete rfl
    exact ⟨tree.leaves, ⟨complete.leaves_are_terminals, complete.derives⟩, Int.le_antisymm low high⟩
  · intro text generated
    obtain ⟨tree, complete, start, rfl⟩ := tree_of_derivation whole generated.2 generated.1
    exact bounded tree complete start

end Grammar

theorem DerivationTree.Complete.text_cost_of_token {grammar : Grammar} {costs : TokenCosts}
    {tree : DerivationTree} (complete : Complete grammar tree) (terminal : tree.root.isTerminal) :
    Grammar.textCost costs tree.leaves = costs.of tree.root := by
  rw [complete.of_terminal_root terminal, leaves_leaf terminal]
  exact Int.add_zero _

namespace Generator

open Grammar

variable {generator : Generator} {production : Production} {table : List Int}

section Reading

variable {symbol : Symbol}

theorem dearest_of_terminal (terminal : symbol.isTerminal) :
    generator.dearestOf table symbol = generator.tokenCosts.of symbol := if_pos terminal

theorem dearest_of_nonterminal (nonterminal : symbol.isTerminal = false) :
    generator.dearestOf table symbol = (item? table symbol.index).getD 0 := by
  rw [dearestOf, nonterminal]
  rfl

def dearestSum (generator : Generator) (table : List Int) (form : List Symbol) : Int :=
  form.foldr (fun symbol rest => generator.dearestOf table symbol + rest) 0

theorem dearest_sum_cons (first : Symbol) (rest : List Symbol) :
    generator.dearestSum table (first :: rest) =
      generator.dearestOf table first + generator.dearestSum table rest := rfl

theorem learn_dearest_size (production : Production) :
    (generator.learnDearest table production).length = table.length := length_amend _ _ _

variable (whole : generator.grammar.WellFormed)
  (size : table.length = generator.grammar.nonterminals.length)

include whole size

theorem dearest_after_learn (head : production.lhs ∈ generator.grammar.nonterminals)
    (member : symbol ∈ generator.grammar.nonterminals) :
    generator.dearestOf (generator.learnDearest table production) symbol =
      if symbol = production.lhs then
        max (generator.dearestOf table symbol) (generator.dearestSum table production.rhs)
      else generator.dearestOf table symbol := by
  have nonterminal := whole.nonterminal_kind member
  obtain ⟨entry, _, found⟩ := whole.item_found size member
  simp only [dearest_of_nonterminal nonterminal, learnDearest]
  rw [whole.item_after_amend size head member, found]
  split <;> rfl

end Reading

section Reached

/-- Each known cost is at most the cost of some complete tree. -/
structure Reached (generator : Generator) (table : List Int) : Prop where
  size : table.length = generator.grammar.nonterminals.length
  high : ∀ symbol ∈ generator.grammar.nonterminals, generator.grammar.DerivesTokens symbol →
    ∃ tree, Complete generator.grammar tree ∧ tree.root = symbol ∧
      generator.dearestOf table symbol ≤ textCost generator.tokenCosts tree.leaves

theorem Reached.symbol (reached : generator.Reached table) (whole : generator.grammar.WellFormed)
    {symbol : Symbol} (known : generator.grammar.Knows symbol)
    (derives : generator.grammar.DerivesTokens symbol) :
    ∃ tree, Complete generator.grammar tree ∧ tree.root = symbol ∧
      generator.dearestOf table symbol ≤ textCost generator.tokenCosts tree.leaves := by
  cases kind : symbol.isTerminal with
  | true =>
      have token : Complete generator.grammar (leaf symbol) := .token kind
      refine ⟨leaf symbol, token, rfl, ?_⟩
      rw [dearest_of_terminal kind, token.text_cost_of_token kind]
      exact Int.le_refl _
  | false => exact reached.high symbol (whole.nonterminal_known known kind) derives

theorem Reached.form (reached : generator.Reached table) (whole : generator.grammar.WellFormed)
    {form : List Symbol} (known : generator.grammar.KnowsAll form)
    (each : ∀ symbol ∈ form, generator.grammar.DerivesTokens symbol) :
    ∃ trees, Forest generator.grammar form trees ∧
      generator.dearestSum table form ≤
        textCost generator.tokenCosts (trees.flatMap leaves) := by
  induction form with
  | nil => exact ⟨[], Forest.nil, Int.le_refl 0⟩
  | cons first rest ih =>
      obtain ⟨tree, complete, rfl, head⟩ :=
        reached.symbol whole (known first (by simp)) (each first (by simp))
      obtain ⟨trees, forest, tail⟩ := ih known.tail fun other among => each other (by simp [among])
      refine ⟨tree :: trees, Forest.cons complete forest, ?_⟩
      rw [dearest_sum_cons, List.flatMap_cons, text_cost_append]
      omega

theorem Reached.after_learn (reached : generator.Reached table)
    (whole : generator.grammar.WellFormed) (fruitful : generator.grammar.Fruitful production) :
    generator.Reached (generator.learnDearest table production) := by
  have head := whole.heads_known production fruitful.1
  refine ⟨(learn_dearest_size production).trans reached.size, ?_⟩
  intro symbol member derives
  rw [dearest_after_learn whole reached.size head member]
  split
  · rename_i same
    subst same
    rcases max_choice (generator.dearestOf table production.lhs)
      (generator.dearestSum table production.rhs) with known | found
    · rw [known]
      exact reached.high _ member derives
    · rw [found]
      obtain ⟨trees, forest, high⟩ :=
        reached.form whole (whole.body_known fruitful.1) fruitful.2
      refine ⟨_, forest.expansion whole fruitful.1, rfl, ?_⟩
      rwa [leaves_node (whole.nonterminal_kind head)]
  · exact reached.high symbol member derives

theorem Reached.initially (prepared : generator.Prepared)
    (signed : generator.tokenCosts.Signed generator.grammar) :
    generator.Reached (List.replicate generator.grammar.nonterminals.length 0) := by
  have size : (List.replicate generator.grammar.nonterminals.length (0 : Int)).length =
      generator.grammar.nonterminals.length := List.length_replicate
  refine ⟨size, ?_⟩
  intro symbol member derives
  obtain ⟨tree, complete, rfl⟩ := (derives_tokens_iff prepared.whole).1 derives
  obtain ⟨entry, among, found⟩ := prepared.whole.item_found size member
  refine ⟨tree, complete, rfl, ?_⟩
  rw [dearest_of_nonterminal (prepared.whole.nonterminal_kind member), found,
    List.eq_of_mem_replicate among]
  exact signed.tree_tokens prepared.whole complete (Or.inr member)

end Reached

section Raised

/-- No known cost has been lowered. -/
structure Raised (generator : Generator) (old new : List Int) : Prop where
  size : new.length = generator.grammar.nonterminals.length
  higher : ∀ symbol ∈ generator.grammar.nonterminals,
    generator.dearestOf old symbol ≤ generator.dearestOf new symbol

theorem Raised.refl (size : table.length = generator.grammar.nonterminals.length) :
    generator.Raised table table := ⟨size, fun _ _ => Int.le_refl _⟩

variable (whole : generator.grammar.WellFormed)

include whole

theorem Raised.after_learn {old : List Int} (raised : generator.Raised old table)
    (head : production.lhs ∈ generator.grammar.nonterminals) :
    generator.Raised old (generator.learnDearest table production) := by
  refine ⟨(learn_dearest_size production).trans raised.size, ?_⟩
  intro symbol member
  have before := raised.higher symbol member
  rw [dearest_after_learn whole raised.size head member]
  split
  · exact before.trans (le_max_left _ _)
  · exact before

theorem fold_raises (size : table.length = generator.grammar.nonterminals.length)
    {productions : List Production}
    (heads : ∀ production ∈ productions, production.lhs ∈ generator.grammar.nonterminals) :
    generator.Raised table (productions.foldl generator.learnDearest table) :=
  fold_keeps (motive := generator.Raised table)
    (fun production among _ raised => raised.after_learn whole (heads production among))
    (Raised.refl size)

theorem Raised.sum {old : List Int} (raised : generator.Raised old table) {form : List Symbol}
    (known : generator.grammar.KnowsAll form) :
    generator.dearestSum old form ≤ generator.dearestSum table form := by
  induction form with
  | nil => exact Int.le_refl 0
  | cons first rest ih =>
      have tail := ih known.tail
      have head : generator.dearestOf old first ≤ generator.dearestOf table first := by
        cases kind : first.isTerminal with
        | true => rw [dearest_of_terminal kind, dearest_of_terminal kind]
        | false => exact raised.higher first (whole.nonterminal_known (known first (by simp)) kind)
      rw [dearest_sum_cons, dearest_sum_cons]
      omega

theorem fold_learns (size : table.length = generator.grammar.nonterminals.length)
    {productions : List Production} (listed : ∀ other ∈ productions,
      other ∈ generator.grammar.productions) (member : production ∈ productions) :
    generator.dearestSum table production.rhs ≤
      generator.dearestOf (productions.foldl generator.learnDearest table) production.lhs := by
  have heads : ∀ other ∈ productions, other.lhs ∈ generator.grammar.nonterminals :=
    fun other among => whole.heads_known other (listed other among)
  have head := heads production member
  obtain ⟨before, after, rfl⟩ := List.append_of_mem member
  have earlier : generator.Raised table (before.foldl generator.learnDearest table) :=
    fold_raises whole size fun other among => heads other (by simp [among])
  have body := earlier.sum whole (whole.body_known (listed production member))
  have learnt : generator.dearestSum (before.foldl generator.learnDearest table) production.rhs ≤
      generator.dearestOf (generator.learnDearest (before.foldl generator.learnDearest table)
        production) production.lhs := by
    rw [dearest_after_learn whole earlier.size head head, if_pos rfl]
    exact le_max_right _ _
  have later := fold_raises whole ((Raised.refl earlier.size).after_learn whole head).size
    fun other among => heads other (List.mem_append_right before (List.mem_cons_of_mem _ among))
  rw [List.foldl_append, List.foldl_cons]
  exact (body.trans learnt).trans (later.higher production.lhs head)

end Raised

section Carried

/-- No tree of this height costs more than what is known, as long as its root does not recur. -/
structure Carried (generator : Generator) (height : Nat) (table : List Int) : Prop where
  size : table.length = generator.grammar.nonterminals.length
  covered : ∀ tree, Complete generator.grammar tree →
    tree.root ∈ generator.grammar.nonterminals → ¬ generator.grammar.Recurs tree.root →
    tree.depth ≤ height →
    textCost generator.tokenCosts tree.leaves ≤ generator.dearestOf table tree.root

theorem Carried.initially (whole : generator.grammar.WellFormed) :
    generator.Carried 0 (List.replicate generator.grammar.nonterminals.length 0) := by
  refine ⟨List.length_replicate, ?_⟩
  intro tree complete member _ flat
  have kind := whole.nonterminal_kind member
  obtain ⟨production, children, rfl, _⟩ := complete.of_nonterminal_root kind
  change production.lhs.isTerminal = false at kind
  rw [depth_node kind] at flat
  omega

theorem Carried.forest {height : Nat} (carried : generator.Carried height table)
    (whole : generator.grammar.WellFormed) {form : List Symbol} {trees : List DerivationTree}
    (forest : Forest generator.grammar form trees) (known : generator.grammar.KnowsAll form)
    (straight : ∀ part ∈ form, part.isTerminal = false → ¬ generator.grammar.Recurs part)
    (shallow : depthAll trees ≤ height) :
    textCost generator.tokenCosts (trees.flatMap leaves) ≤ generator.dearestSum table form := by
  induction form generalizing trees with
  | nil =>
      obtain rfl := List.map_eq_nil_iff.1 forest.roots
      exact Int.le_refl 0
  | cons first rest ih =>
      obtain ⟨tree, others, rfl, rfl, complete, below⟩ := forest.of_cons
      have low := depth_all_le_iff.1 shallow
      have tail := ih below known.tail (fun part among => straight part (by simp [among]))
        (depth_all_le_iff.2 fun other among => low other (by simp [among]))
      have head : textCost generator.tokenCosts tree.leaves ≤
          generator.dearestOf table tree.root := by
        cases kind : tree.root.isTerminal with
        | true => rw [dearest_of_terminal kind, complete.text_cost_of_token kind]
        | false =>
            exact carried.covered tree complete
              (whole.nonterminal_known (known tree.root (by simp)) kind)
              (straight tree.root (by simp) kind) (low tree (by simp))
      rw [dearest_sum_cons, List.flatMap_cons, text_cost_append]
      omega

/-- A pass over the fruitful productions completes the trees that are one step higher. -/
theorem Carried.after_pass {height : Nat} (carried : generator.Carried height table)
    (whole : generator.grammar.WellFormed) {productions : List Production}
    (within : ∀ production, production ∈ productions ↔
      generator.grammar.Fruitful production ∧ ¬ generator.grammar.Recurs production.lhs) :
    generator.Carried (height + 1) (productions.foldl generator.learnDearest table) := by
  have listed : ∀ production ∈ productions, production ∈ generator.grammar.productions :=
    fun production among => ((within production).1 among).1.1
  have raised := fold_raises whole carried.size
    fun production among => whole.heads_known production (listed production among)
  refine ⟨raised.size, ?_⟩
  intro tree complete member straight low
  have kind := whole.nonterminal_kind member
  obtain ⟨production, children, rfl, applied, forest⟩ := complete.of_nonterminal_root kind
  change production.lhs.isTerminal = false at kind
  have fruitful := Fruitful.of_forest whole applied forest
  rw [depth_node kind] at low
  have known := carried.forest whole forest (whole.body_known applied)
    (fun _ occurs nonterminal => fruitful.part_straight straight occurs nonterminal)
    (Nat.le_of_succ_le_succ low)
  have learnt := fold_learns whole carried.size listed ((within production).2 ⟨fruitful, straight⟩)
  rw [leaves_node kind]
  exact known.trans learnt

end Carried

end Generator

end GrammarKit
