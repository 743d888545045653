import GrammarKit.Symbol
import GrammarKit.Tree.Rose

/-!
# Derivation trees

A node bears a symbol, and the production that was applied to it when the tree was derived. Trees
put together by hand bear no productions, and nothing ties their children to a grammar.
-/

namespace GrammarKit

set_option autoImplicit false

structure DerivationNode where
  symbol : Symbol
  production : Option Production := none
deriving DecidableEq

abbrev DerivationTree := RoseTree DerivationNode

namespace DerivationTree

def leaf (symbol : Symbol) : DerivationTree := .node ⟨symbol, none⟩ []

mutual

def leavesOnto : DerivationTree → List Symbol → List Symbol
  | .node node children, rest =>
      if node.symbol.isTerminal then node.symbol :: rest else leavesAllOnto children rest

def leavesAllOnto : List DerivationTree → List Symbol → List Symbol
  | [], rest => rest
  | tree :: others, rest => leavesOnto tree (leavesAllOnto others rest)

end

/-- The terminals at the frontier, from left to right. What hangs below a terminal does not
count. -/
def leaves (tree : DerivationTree) : List Symbol := leavesOnto tree []

mutual

theorem leaves_onto_append (tree : DerivationTree) (first rest : List Symbol) :
    leavesOnto tree (first ++ rest) = leavesOnto tree first ++ rest := by
  cases tree with
  | node node children =>
      unfold leavesOnto
      split
      · rfl
      · exact leaves_all_onto_append children first rest

theorem leaves_all_onto_append (trees : List DerivationTree) (first rest : List Symbol) :
    leavesAllOnto trees (first ++ rest) = leavesAllOnto trees first ++ rest := by
  cases trees with
  | nil => rfl
  | cons tree others =>
      unfold leavesAllOnto
      rw [leaves_all_onto_append others first rest, leaves_onto_append tree]

end

theorem leaves_onto_eq (tree : DerivationTree) (rest : List Symbol) :
    leavesOnto tree rest = leaves tree ++ rest := leaves_onto_append tree [] rest

theorem leaves_all_onto_eq (trees : List DerivationTree) (rest : List Symbol) :
    leavesAllOnto trees rest = trees.flatMap leaves ++ rest := by
  induction trees with
  | nil => rfl
  | cons tree others ih =>
      unfold leavesAllOnto
      rw [leaves_onto_eq, ih, List.flatMap_cons, List.append_assoc]

theorem leaves_of_terminal {node : DerivationNode} {children : List DerivationTree}
    (terminal : node.symbol.isTerminal) : leaves (.node node children) = [node.symbol] := by
  simp [leaves, leavesOnto, terminal]

theorem leaves_of_nonterminal {node : DerivationNode} {children : List DerivationTree}
    (nonterminal : node.symbol.isTerminal = false) :
    leaves (.node node children) = children.flatMap leaves := by
  simp [leaves, leavesOnto, nonterminal, leaves_all_onto_eq]

mutual

/-- The names of the symbols. A nonterminal without children gets a single child for the empty
sequence. -/
def outline : DerivationTree → RoseTree String
  | .node node [] =>
      .node node.symbol.name
        (if node.symbol.isTerminal then [] else [.node emptySequence []])
  | .node node (first :: rest) =>
      .node node.symbol.name (outline first :: outlineAll rest)

def outlineAll : List DerivationTree → List (RoseTree String)
  | [] => []
  | tree :: rest => outline tree :: outlineAll rest

end

end DerivationTree

end GrammarKit
