/-!
# Rose trees

Labelled trees whose nodes have any number of children, in order.
-/

namespace GrammarKit

set_option autoImplicit false

inductive RoseTree (α : Type) where
  | node (label : α) (children : List (RoseTree α))

namespace RoseTree

variable {α : Type}

/-- Induction on a row of trees: first what hangs below the first root, then the trees beside it. -/
theorem row_induction {motive : List (RoseTree α) → Prop} (nil : motive [])
    (cons : ∀ label children rest, motive children → motive rest →
      motive (.node label children :: rest)) (trees : List (RoseTree α)) : motive trees :=
  match trees with
  | [] => nil
  | .node label children :: rest =>
      cons label children rest (row_induction nil cons children) (row_induction nil cons rest)
termination_by sizeOf trees

def label : RoseTree α → α
  | node label _ => label

def children : RoseTree α → List (RoseTree α)
  | node _ children => children

mutual

def size : RoseTree α → Nat
  | node _ children => sizeAll children + 1

def sizeAll : List (RoseTree α) → Nat
  | [] => 0
  | tree :: rest => size tree + sizeAll rest

end

mutual

def preorderOnto : RoseTree α → List (α × Nat) → List (α × Nat)
  | node label children, rest => (label, children.length) :: preorderAllOnto children rest

def preorderAllOnto : List (RoseTree α) → List (α × Nat) → List (α × Nat)
  | [], rest => rest
  | tree :: others, rest => preorderOnto tree (preorderAllOnto others rest)

end

/-- Every node before its children, with the number of its children. -/
def preorder (tree : RoseTree α) : List (α × Nat) := preorderOnto tree []

mutual

theorem preorder_onto_append (tree : RoseTree α) (first rest : List (α × Nat)) :
    preorderOnto tree (first ++ rest) = preorderOnto tree first ++ rest := by
  cases tree with
  | node label children =>
      unfold preorderOnto
      rw [preorder_all_onto_append children first rest, List.cons_append]

theorem preorder_all_onto_append (trees : List (RoseTree α)) (first rest : List (α × Nat)) :
    preorderAllOnto trees (first ++ rest) = preorderAllOnto trees first ++ rest := by
  cases trees with
  | nil => rfl
  | cons tree others =>
      unfold preorderAllOnto
      rw [preorder_all_onto_append others first rest, preorder_onto_append tree]

end

theorem preorder_all_onto_eq (trees : List (RoseTree α)) :
    preorderAllOnto trees [] = trees.flatMap preorder := by
  induction trees with
  | nil => rfl
  | cons tree others ih =>
      have split := preorder_onto_append tree [] (others.flatMap preorder)
      rw [List.nil_append] at split
      rw [preorderAllOnto, ih, split, List.flatMap_cons]
      rfl

theorem preorder_node (label : α) (children : List (RoseTree α)) :
    preorder (.node label children) =
      (label, children.length) :: children.flatMap preorder := by
  rw [← preorder_all_onto_eq]
  rfl

end RoseTree

end GrammarKit
