import GrammarKit.Tree.Derivation

/-!
# Pictures of trees

The nodes of a picture are numbered row by row from the root, each row from left to right, so the
children of a node keep their order. For a drawing each row is centred: its nodes are one step
apart, and half of them lie to the left of the middle.
-/

namespace GrammarKit

set_option autoImplicit false

structure PictureNode where
  number : Nat
  label : String
  layer : Nat
  parent : Option Nat
deriving DecidableEq, Repr

/-- A place for a node. The horizontal position counts half steps to the right of the middle. -/
structure Spot where
  number : Nat
  halfSteps : Int
  layer : Nat
deriving DecidableEq, Repr

structure Picture where
  rows : List (List PictureNode)
deriving DecidableEq, Repr

namespace Picture

/-- Numbers a row of trees from `first` on, then the rows below. No tree has more rows than
nodes. -/
def numberRows : Nat → Nat → Nat → List (RoseTree String × Option Nat) → List (List PictureNode)
  | 0, _, _, _ => []
  | _, _, _, [] => []
  | fuel + 1, layer, first, row =>
      let numbered := row.zipIdx first
      let nodes := numbered.map fun ((tree, parent), number) => ⟨number, tree.label, layer, parent⟩
      let below := numbered.flatMap fun ((tree, _), number) =>
        tree.children.map fun child => (child, some number)
      nodes :: numberRows fuel (layer + 1) (first + row.length) below

def ofOutline (outline : RoseTree String) : Picture :=
  ⟨numberRows outline.size 0 0 [(outline, none)]⟩

def ofTree (tree : DerivationTree) : Picture := ofOutline tree.outline

def nodes (picture : Picture) : List PictureNode := picture.rows.flatten

def edges (picture : Picture) : List (Nat × Nat) :=
  picture.nodes.filterMap fun node => node.parent.map fun parent => (parent, node.number)

def spotsOf (row : List PictureNode) : List Spot :=
  row.zipIdx.map fun (node, place) => ⟨node.number, 2 * place - row.length, node.layer⟩

def spots (picture : Picture) : List Spot := picture.rows.flatMap spotsOf

end Picture

end GrammarKit
