import GrammarKit.Derivation.Form
import GrammarKit.Sentence.Cost
import GrammarKit.Tree.Derivation
import Mathlib.Algebra.Ring.Int.Defs
import Mathlib.Algebra.Ring.Nat

/-!
# Complete derivation trees

A tree is complete for a grammar when every inner node applies a production of the grammar, its
children bear the symbols of the right-hand side in order, and every leaf is a terminal or the
result of an empty production. Main statement: the root of a complete tree derives its leaves.
-/

namespace GrammarKit

set_option autoImplicit false

namespace DerivationTree

def root (tree : DerivationTree) : Symbol := tree.label.symbol

inductive Complete (grammar : Grammar) : DerivationTree → Prop where
  | token {symbol : Symbol} (terminal : symbol.isTerminal) : Complete grammar (leaf symbol)
  | expansion {production : Production} {children : List DerivationTree}
      (member : production ∈ grammar.productions)
      (nonterminal : production.lhs.isTerminal = false)
      (body : children.map root = production.rhs)
      (complete : ∀ child ∈ children, Complete grammar child) :
      Complete grammar (.node ⟨production.lhs, some production⟩ children)

mutual

/-- The number of productions applied. -/
def expansionCount : DerivationTree → Nat
  | .node node children => (if node.symbol.isTerminal then 0 else 1) + expansionCountAll children

def expansionCountAll : List DerivationTree → Nat
  | [] => 0
  | tree :: rest => expansionCount tree + expansionCountAll rest

end

def cost (costs : TokenCosts) (tree : DerivationTree) : Cost :=
  ⟨(tree.leaves.map costs.of).sum, tree.expansionCount⟩

theorem expansion_count_all_eq_sum (trees : List DerivationTree) :
    expansionCountAll trees = (trees.map expansionCount).sum := by
  induction trees with
  | nil => rfl
  | cons tree rest ih => simp [expansionCountAll, ih]

@[simp]
theorem leaves_leaf {symbol : Symbol} (terminal : symbol.isTerminal) :
    (leaf symbol).leaves = [symbol] := leaves_of_terminal terminal

theorem leaves_node {symbol : Symbol} {production : Option Production}
    {children : List DerivationTree} (nonterminal : symbol.isTerminal = false) :
    leaves (.node ⟨symbol, production⟩ children) = children.flatMap leaves :=
  leaves_of_nonterminal nonterminal

/-- Derivations from the roots of some trees make up one from all the roots together. -/
theorem derives_all {grammar : Grammar} {trees : List DerivationTree}
    (each : ∀ tree ∈ trees, grammar.Derives [tree.root] tree.leaves) :
    grammar.Derives (trees.map root) (trees.flatMap leaves) := by
  induction trees with
  | nil => exact .refl
  | cons tree rest ih =>
      rw [List.map_cons, List.flatMap_cons]
      exact Grammar.Derives.append (each tree (by simp))
        (ih fun other member => each other (by simp [member]))

namespace Complete

variable {grammar : Grammar}

theorem derives {tree : DerivationTree} (complete : Complete grammar tree) :
    grammar.Derives [tree.root] tree.leaves := by
  induction complete with
  | token terminal =>
      rw [leaves_leaf terminal]
      exact .refl
  | expansion member nonterminal body _ ih =>
      rw [leaves_node nonterminal]
      refine (Grammar.Derives.of_production member).trans ?_
      rw [← body]
      exact derives_all ih

theorem leaves_are_terminals {tree : DerivationTree} (complete : Complete grammar tree) :
    ∀ symbol ∈ tree.leaves, symbol.isTerminal := by
  induction complete with
  | token terminal => simp [leaves_leaf terminal, terminal]
  | expansion _ nonterminal _ _ ih =>
      rw [leaves_node nonterminal]
      intro symbol member
      obtain ⟨child, among, found⟩ := List.mem_flatMap.1 member
      exact ih child among symbol found

end Complete

end DerivationTree

end GrammarKit
