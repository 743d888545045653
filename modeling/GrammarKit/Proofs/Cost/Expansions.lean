import GrammarKit.Proofs.Cost.Least

/-!
# Fewest expansions

With tokens for nothing the cost of a tree is its number of expansions. So the table of expansions
has the least number of them for each nonterminal that derives a finite sequence, and nothing for
the others.
-/

namespace GrammarKit

set_option autoImplicit false

open DerivationTree

theorem TokenCosts.of_free (token : Symbol) : TokenCosts.free.of token = 0 := rfl

theorem DerivationTree.cost_free (tree : DerivationTree) :
    tree.cost .free = ⟨0, tree.expansionCount⟩ := by
  have nothing : TokenCosts.free.of = fun _ => 0 := by
    funext token
    exact TokenCosts.of_free token
  simp [cost, nothing]

namespace Grammar

variable {grammar : Grammar} {symbol : Symbol}

/-- The least number of expansions over the complete trees of a symbol, which has to have one. -/
def LeastExpansions (grammar : Grammar) (symbol : Symbol) (least : Nat) : Prop :=
  (∃ tree, Complete grammar tree ∧ tree.root = symbol ∧ tree.expansionCount = least) ∧
    ∀ tree, Complete grammar tree → tree.root = symbol → least ≤ tree.expansionCount

theorem LeastExpansions.unique {left right : Nat} (first : grammar.LeastExpansions symbol left)
    (second : grammar.LeastExpansions symbol right) : left = right := by
  obtain ⟨⟨leftTree, leftComplete, leftRoot, rfl⟩, leftLeast⟩ := first
  obtain ⟨⟨rightTree, rightComplete, rightRoot, rfl⟩, rightLeast⟩ := second
  apply Nat.le_antisymm
  · exact leftLeast rightTree rightComplete rightRoot
  · exact rightLeast leftTree leftComplete leftRoot

theorem LeastExpansions.of_terminal (terminal : symbol.isTerminal) :
    grammar.LeastExpansions symbol 0 := by
  refine ⟨⟨leaf symbol, .token terminal, rfl, ?_⟩, fun _ _ _ => Nat.zero_le _⟩
  simp [leaf, expansionCount, expansionCountAll, terminal]

theorem free_signed (grammar : Grammar) : TokenCosts.free.Signed grammar :=
  fun terminal _ => Int.le_of_eq (TokenCosts.of_free terminal).symm

theorem expansions_entry (grammar : Grammar) (index : Int) :
    (item? grammar.expansions index).join =
      ((CostTable.ofGrammar grammar .free).costAt index).map (·.expansions) := by
  unfold expansions CostTable.costAt
  rw [item_map]
  rcases item? (CostTable.ofGrammar grammar .free).entries index with _ | _ | _ <;> rfl

theorem least_of_expansions_entry (whole : grammar.WellFormed)
    (member : symbol ∈ grammar.nonterminals) {least : Nat}
    (found : (item? grammar.expansions symbol.index).join = some least) :
    grammar.LeastExpansions symbol least := by
  rw [expansions_entry] at found
  obtain ⟨cost, known, rfl⟩ := Option.map_eq_some_iff.1 found
  obtain ⟨⟨tree, complete, start, same⟩, lowest⟩ :=
    CostTable.least_of_cost_at whole (free_signed grammar) member known
  rw [cost_free] at same
  subst same
  refine ⟨⟨tree, complete, start, rfl⟩, ?_⟩
  intro other otherComplete otherStart
  have ordered := lowest other otherComplete otherStart
  change tree.expansionCount ≤ other.expansionCount
  rw [cost_free] at ordered
  simp only [Cost.AtMost] at ordered
  omega

theorem expansions_entry_of_derives (whole : grammar.WellFormed)
    (member : symbol ∈ grammar.nonterminals) (derives : grammar.DerivesTokens symbol) :
    ∃ least, (item? grammar.expansions symbol.index).join = some least := by
  obtain ⟨tree, complete, rfl⟩ := (derives_tokens_iff whole).1 derives
  obtain ⟨cost, known⟩ :=
    CostTable.cost_at_of_complete whole (free_signed grammar) complete member
  exact ⟨cost.expansions, by rw [expansions_entry, known]; rfl⟩

end Grammar

end GrammarKit
