import GrammarKit.Tree.Picture
import Mathlib.Data.List.Basic
import Mathlib.Data.List.Pairwise

/-!
# Rows of a picture

A picture is drawn row by row. What a row of trees gets are nodes with consecutive numbers, and what
comes below is the row of all their children, each with the number of its parent. Every property of
the numbering is kept from a row to the row below it, so all of them are proved on the relation
`Draws`, which knows no limit on the number of rows.
-/

namespace GrammarKit

set_option autoImplicit false

namespace RoseTree

variable {α : Type}

theorem size_all_append (left right : List (RoseTree α)) :
    sizeAll (left ++ right) = sizeAll left + sizeAll right := by
  induction left with
  | nil => simp [sizeAll]
  | cons tree rest ih =>
      rw [List.cons_append, sizeAll, sizeAll, ih]
      omega

theorem size_all_eq (trees : List (RoseTree α)) :
    sizeAll trees = trees.length + sizeAll (trees.flatMap children) := by
  induction trees with
  | nil => rfl
  | cons tree rest ih =>
      cases tree with
      | node label below =>
          rw [List.flatMap_cons, size_all_append, sizeAll, size, ih, List.length_cons]
          change _ = _ + (sizeAll below + _)
          omega

theorem size_mem_le {tree : RoseTree α} {trees : List (RoseTree α)} (member : tree ∈ trees) :
    size tree ≤ sizeAll trees := by
  induction trees with
  | nil => cases member
  | cons first rest ih =>
      rw [sizeAll]
      rcases List.mem_cons.1 member with rfl | later
      · omega
      · have bounded := ih later
        omega

end RoseTree

namespace Picture

open RoseTree

/-- Trees side by side, each with the number of its parent. -/
abbrev Row := List (RoseTree String × Option Nat)

/-- The nodes that the roots of a row become. -/
def rowNodes (layer first : Nat) (row : Row) : List PictureNode :=
  (row.zipIdx first).map fun ((tree, parent), number) => ⟨number, tree.label, layer, parent⟩

/-- The children of all roots of a row. -/
def rowBelow (first : Nat) (row : Row) : Row :=
  (row.zipIdx first).flatMap fun ((tree, _), number) =>
    tree.children.map fun child => (child, some number)

/-- The rows of nodes that a row of trees is drawn as, whatever their number. -/
inductive Draws : Nat → Nat → Row → List (List PictureNode) → Prop
  | done {layer first : Nat} : Draws layer first [] []
  | next {layer first : Nat} {row : Row} {rows : List (List PictureNode)} (filled : row ≠ [])
      (below : Draws (layer + 1) (first + row.length) (rowBelow first row) rows) :
      Draws layer first row (rowNodes layer first row :: rows)

section OneRow

variable (layer first : Nat) (left right row : Row)

theorem row_nodes_append : rowNodes layer first (left ++ right) =
    rowNodes layer first left ++ rowNodes layer (first + left.length) right := by
  unfold rowNodes
  rw [List.zipIdx_append, List.map_append]

theorem row_below_append : rowBelow first (left ++ right) =
    rowBelow first left ++ rowBelow (first + left.length) right := by
  unfold rowBelow
  rw [List.zipIdx_append, List.flatMap_append]

theorem row_below_cons (tree : RoseTree String) (parent : Option Nat) :
    rowBelow first ((tree, parent) :: row) =
      tree.children.map (fun child => (child, some first)) ++ rowBelow (first + 1) row := by
  unfold rowBelow
  rw [List.zipIdx_cons, List.flatMap_cons]

theorem row_node_at {place : Nat} (inside : place < row.length) :
    (rowNodes layer first row)[place]? =
      some ⟨first + place, row[place].1.label, layer, row[place].2⟩ := by
  simp [rowNodes, inside]

theorem row_numbers :
    (rowNodes layer first row).map (·.number) = List.range' first row.length := by
  unfold rowNodes
  rw [List.map_map]
  exact List.zipIdx_map_snd first row

theorem row_parents : (rowNodes layer first row).map (·.parent) = row.map (·.2) := by
  unfold rowNodes
  rw [List.map_map]
  conv_rhs => rw [← List.zipIdx_map_fst first row, List.map_map]
  rfl

/-- The children of a root come behind those of the roots to its left. -/
theorem row_below_at (tree : RoseTree String) (parent : Option Nat) {place : Nat}
    (inside : place < tree.children.length) :
    (rowBelow first (left ++ (tree, parent) :: right))[(rowBelow first left).length + place]? =
      some (tree.children[place], some (first + left.length)) := by
  rw [row_below_append, row_below_cons, List.getElem?_append_right (by omega),
    Nat.add_sub_cancel_left, List.getElem?_append_left (by simpa using inside)]
  simp [inside]

theorem row_below_trees :
    (rowBelow first row).map (·.1) = (row.map (·.1)).flatMap children := by
  induction row generalizing first with
  | nil => rfl
  | cons entry rest ih =>
      rw [row_below_cons, List.map_append, ih, List.map_cons, List.flatMap_cons, List.map_map]
      exact congrArg (· ++ _) (List.map_id _)

end OneRow

theorem row_node_layer {layer first : Nat} {row : Row} {node : PictureNode}
    (member : node ∈ rowNodes layer first row) : node.layer = layer := by
  rcases List.mem_map.1 member with ⟨entry, _, rfl⟩
  rfl

theorem row_node_number {layer first : Nat} {row : Row} {node : PictureNode}
    (member : node ∈ rowNodes layer first row) :
    first ≤ node.number ∧ node.number < first + row.length := by
  have listed : node.number ∈ (rowNodes layer first row).map (·.number) :=
    List.mem_map_of_mem member
  rw [row_numbers, List.mem_range'_1] at listed
  exact listed

theorem row_node_parent {layer first : Nat} {row : Row} {node : PictureNode}
    (member : node ∈ rowNodes layer first row) : ∃ entry ∈ row, entry.2 = node.parent := by
  have listed : node.parent ∈ (rowNodes layer first row).map (·.parent) :=
    List.mem_map_of_mem member
  rw [row_parents] at listed
  exact List.mem_map.1 listed

theorem row_below_parent (layer : Nat) {first : Nat} {row : Row}
    {entry : RoseTree String × Option Nat} (member : entry ∈ rowBelow first row) :
    ∃ parent ∈ rowNodes layer first row, entry.2 = some parent.number := by
  rcases List.mem_flatMap.1 member with ⟨root, among, child⟩
  rcases List.mem_map.1 child with ⟨tree, _, rfl⟩
  exact ⟨_, List.mem_map_of_mem among, rfl⟩

theorem row_below_bounds {first : Nat} {row : Row} {entry : RoseTree String × Option Nat}
    (member : entry ∈ rowBelow first row) :
    ∃ parent, entry.2 = some parent ∧ first ≤ parent ∧ parent < first + row.length := by
  rcases row_below_parent 0 member with ⟨node, among, linked⟩
  exact ⟨node.number, linked, row_node_number among⟩

theorem row_below_earlier {first : Nat} {row : Row} :
    ∀ entry ∈ rowBelow first row, ∀ parent ∈ entry.2, parent < first + row.length := by
  intro entry member parent linked
  rcases row_below_bounds member with ⟨number, same, _, bounded⟩
  rw [same] at linked
  cases linked
  exact bounded

/-- The parents are in order where there are any. -/
def InOrder (earlier later : Option Nat) : Prop :=
  ∀ left ∈ earlier, ∀ right ∈ later, left ≤ right

theorem row_below_in_order (first : Nat) (row : Row) :
    ((rowBelow first row).map (·.2)).Pairwise InOrder := by
  induction row generalizing first with
  | nil => exact List.Pairwise.nil
  | cons entry rest ih =>
      rw [row_below_cons, List.map_append, List.map_map]
      apply List.pairwise_append.2
      refine ⟨?_, ih (first + 1), ?_⟩
      · apply List.pairwise_of_forall_mem_list
        intro left leftListed right rightListed
        rcases List.mem_map.1 leftListed with ⟨_, _, rfl⟩
        rcases List.mem_map.1 rightListed with ⟨_, _, rfl⟩
        intro number own other same
        cases own
        cases same
        exact Nat.le_refl _
      · intro left leftListed right rightListed number own other same
        rcases List.mem_map.1 leftListed with ⟨_, _, rfl⟩
        rcases List.mem_map.1 rightListed with ⟨later, among, rfl⟩
        rcases row_below_bounds among with ⟨parent, linked, behind, _⟩
        cases own
        rw [linked] at same
        cases same
        omega

/-- A limit on the number of rows is none if the row has no more nodes. -/
theorem draws_of_limit (limit layer first : Nat) (row : Row)
    (enough : sizeAll (row.map (·.1)) ≤ limit) :
    Draws layer first row (numberRows limit layer first row) := by
  induction limit generalizing layer first row with
  | zero =>
      cases row with
      | nil => exact .done
      | cons entry rest =>
          rw [size_all_eq] at enough
          simp at enough
  | succ limit ih =>
      cases row with
      | nil => exact .done
      | cons entry rest =>
          apply Draws.next (List.cons_ne_nil _ _)
          apply ih
          rw [row_below_trees]
          rw [size_all_eq, List.length_map, List.length_cons] at enough
          omega

variable {layer first : Nat} {row : Row} {rows : List (List PictureNode)}

theorem Draws.numbers (draws : Draws layer first row rows) :
    rows.flatten.map (·.number) = List.range' first (sizeAll (row.map (·.1))) := by
  induction draws with
  | done => rfl
  | @next layer first row rows _ _ ih =>
      rw [List.flatten_cons, List.map_append, ih, row_numbers, row_below_trees,
        List.range'_append_1, size_all_eq (row.map _), List.length_map]

theorem Draws.layer_le (draws : Draws layer first row rows) :
    ∀ node ∈ rows.flatten, layer ≤ node.layer := by
  induction draws with
  | done => simp
  | next _ _ ih =>
      intro node member
      rcases List.mem_append.1 member with here | below
      · exact Nat.le_of_eq (row_node_layer here).symm
      · exact Nat.le_of_succ_le (ih node below)

theorem Draws.layered (draws : Draws layer first row rows) :
    rows.flatten.Pairwise fun earlier later => earlier.layer ≤ later.layer := by
  induction draws with
  | done => exact List.Pairwise.nil
  | next _ below ih =>
      apply List.pairwise_append.2
      refine ⟨?_, ih, ?_⟩
      · apply List.pairwise_of_forall_mem_list
        intro earlier earlierHere later laterHere
        exact Nat.le_of_eq ((row_node_layer earlierHere).trans (row_node_layer laterHere).symm)
      · intro earlier here later under
        rw [row_node_layer here]
        exact Nat.le_of_succ_le (below.layer_le later under)

theorem Draws.parent_above (draws : Draws layer first row rows) :
    ∀ node ∈ rows.flatten, node ∈ rowNodes layer first row ∨
      ∃ parent ∈ rows.flatten, node.parent = some parent.number ∧
        parent.number < node.number ∧ node.layer = parent.layer + 1 := by
  induction draws with
  | done => simp
  | @next layer first row rows _ _ ih =>
      intro node member
      rcases List.mem_append.1 member with here | below
      · exact Or.inl here
      · right
        rcases ih node below with second | ⟨parent, among, linked⟩
        · have number := (row_node_number second).1
          have depth := row_node_layer second
          rcases List.mem_map.1 second with ⟨entry, counted, rfl⟩
          have hangs : entry.1 ∈ rowBelow first row := List.fst_mem_of_mem_zipIdx counted
          rcases row_below_parent layer hangs with ⟨parent, among, linked⟩
          have above := (row_node_number among).2
          refine ⟨parent, List.mem_append_left _ among, linked, by omega, ?_⟩
          rw [depth, row_node_layer among]
        · exact ⟨parent, List.mem_append_right _ among, linked⟩

theorem Draws.number_ge (draws : Draws layer first row rows) :
    ∀ node ∈ rows.flatten, first ≤ node.number := by
  intro node member
  have listed : node.number ∈ rows.flatten.map (·.number) := List.mem_map_of_mem member
  rw [draws.numbers, List.mem_range'_1] at listed
  exact listed.1

theorem Draws.parent_ge
    (below : Draws (layer + 1) (first + row.length) (rowBelow first row) rows) :
    ∀ node ∈ rows.flatten, ∃ parent, node.parent = some parent ∧ first ≤ parent := by
  intro node member
  rcases below.parent_above node member with second | ⟨parent, among, linked, _⟩
  · rcases row_node_parent second with ⟨entry, listed, same⟩
    rcases row_below_bounds listed with ⟨parent, linked, behind, _⟩
    exact ⟨parent, same.symm.trans linked, behind⟩
  · have behind := below.number_ge parent among
    exact ⟨parent.number, linked, by omega⟩

theorem Draws.parents_in_order (draws : Draws layer first row rows)
    (earlier : ∀ entry ∈ row, ∀ parent ∈ entry.2, parent < first)
    (ordered : (row.map (·.2)).Pairwise InOrder) :
    (rows.flatten.map (·.parent)).Pairwise InOrder := by
  induction draws with
  | done => exact List.Pairwise.nil
  | @next layer first row rows _ below ih =>
      rw [List.flatten_cons, List.map_append, row_parents]
      apply List.pairwise_append.2
      refine ⟨ordered, ih row_below_earlier (row_below_in_order first row), ?_⟩
      · intro left leftListed right rightListed number own other same
        rcases List.mem_map.1 leftListed with ⟨entry, among, rfl⟩
        rcases List.mem_map.1 rightListed with ⟨node, under, rfl⟩
        rcases below.parent_ge node under with ⟨parent, linked, behind⟩
        have before := earlier entry among number own
        rw [linked] at same
        cases same
        omega

section Children

theorem filter_nodes_nil {nodes : List PictureNode} {number : Nat}
    (others : ∀ node ∈ nodes, node.parent ≠ some number) :
    nodes.filter (fun node => node.parent = some number) = [] := by
  apply List.filter_eq_nil_iff.2
  intro node member linked
  exact others node member (of_decide_eq_true linked)

theorem filter_row_nodes_nil {number : Nat} (others : ∀ entry ∈ row, entry.2 ≠ some number) :
    (rowNodes layer first row).filter (fun node => node.parent = some number) = [] := by
  apply filter_nodes_nil
  intro node member
  rcases row_node_parent member with ⟨entry, listed, same⟩
  rw [← same]
  exact others entry listed

theorem filter_row_nodes_self {number : Nat} (all : ∀ entry ∈ row, entry.2 = some number) :
    (rowNodes layer first row).filter (fun node => node.parent = some number) =
      rowNodes layer first row := by
  apply List.filter_eq_self.2
  intro node member
  rcases row_node_parent member with ⟨entry, listed, same⟩
  rw [← same]
  simpa using all entry listed

/-- Below the row the children of one root stand side by side: behind those of the roots to its
left, and in front of those of the roots to its right. -/
theorem filter_row_below (layer start first : Nat) (left right : Row) (tree : RoseTree String)
    (parent : Option Nat) :
    (rowNodes layer start (rowBelow first (left ++ (tree, parent) :: right))).filter
        (fun node => node.parent = some (first + left.length)) =
      rowNodes layer (start + (rowBelow first left).length)
        (tree.children.map fun child => (child, some (first + left.length))) := by
  rw [row_below_append, row_below_cons, row_nodes_append, row_nodes_append, List.filter_append,
    List.filter_append, filter_row_nodes_nil, filter_row_nodes_self, filter_row_nodes_nil]
  · simp
  · intro entry listed linked
    rcases row_below_bounds listed with ⟨number, same, behind, _⟩
    rw [same, Option.some.injEq] at linked
    omega
  · intro entry listed
    rcases List.mem_map.1 listed with ⟨_, _, rfl⟩
    rfl
  · intro entry listed linked
    rcases row_below_bounds listed with ⟨number, same, _, bounded⟩
    rw [same, Option.some.injEq] at linked
    omega

theorem Draws.begins (draws : Draws layer first row rows) :
    ∃ later, rows.flatten = rowNodes layer first row ++ later ∧
      ∀ node ∈ later, ∃ parent, node.parent = some parent ∧ first ≤ parent := by
  cases draws with
  | done => exact ⟨[], rfl, by simp⟩
  | next _ below => exact ⟨_, List.flatten_cons, below.parent_ge⟩

/-- Of all nodes, the children of a root are those drawn for its children in the row below. -/
theorem Draws.children_of (draws : Draws layer first row rows) {front : List PictureNode}
    (front_earlier : ∀ node ∈ front, ∀ parent ∈ node.parent, parent < first)
    (earlier : ∀ entry ∈ row, ∀ parent ∈ entry.2, parent < first)
    {left right : Row} {tree : RoseTree String} {parent : Option Nat}
    (split : row = left ++ (tree, parent) :: right) :
    (front ++ rows.flatten).filter (fun node => node.parent = some (first + left.length)) =
      rowNodes (layer + 1) (first + row.length + (rowBelow first left).length)
        (tree.children.map fun child => (child, some (first + left.length))) := by
  cases draws with
  | done => simp at split
  | next _ below =>
      rcases below.begins with ⟨later, joined, behind⟩
      have size : left.length < row.length := by
        rw [split]
        simp
      have none_in_front : front.filter
          (fun node => node.parent = some (first + left.length)) = [] := by
        apply filter_nodes_nil
        intro node member linked
        have before := front_earlier node member _ linked
        omega
      have none_later : later.filter
          (fun node => node.parent = some (first + left.length)) = [] := by
        apply filter_nodes_nil
        intro node member linked
        rcases behind node member with ⟨number, same, bounded⟩
        rw [same, Option.some.injEq] at linked
        omega
      have none_beside : (rowNodes layer first row).filter
          (fun node => node.parent = some (first + left.length)) = [] := by
        apply filter_row_nodes_nil
        intro entry listed linked
        have before := earlier entry listed _ linked
        omega
      rw [List.flatten_cons, joined, List.filter_append, List.filter_append, List.filter_append,
        none_in_front, none_beside, none_later, List.nil_append, List.nil_append, List.append_nil]
      exact split ▸ filter_row_below (layer + 1) (first + row.length) first left right tree parent

end Children

end Picture

end GrammarKit
