import GrammarKit.Proofs.Picture.Rows
import Mathlib.Data.List.Nodup

/-!
# Trees read back from their pictures

A picture is a graph of numbered nodes with labels and layers. Whoever starts at the root and always
takes the successors of a node in ascending order gets back the labelled tree with its children in
order, where each nonterminal without children has a single child for the empty sequence.
-/

namespace GrammarKit

set_option autoImplicit false

namespace DerivationTree

/-- The labels of a tree, with a child for the empty sequence below each nonterminal that has no
children. -/
inductive Labelled : DerivationTree → RoseTree String → Prop
  | token {node : DerivationNode} (terminal : node.symbol.kind = .terminal) :
      Labelled (.node node []) (.node node.symbol.name [])
  | bare {node : DerivationNode} (nonterminal : node.symbol.kind = .nonterminal) :
      Labelled (.node node []) (.node node.symbol.name [.node emptySequence []])
  | inner {node : DerivationNode} {children : List DerivationTree}
      {labelled : List (RoseTree String)} (filled : children ≠ [])
      (each : List.Forall₂ Labelled children labelled) :
      Labelled (.node node children) (.node node.symbol.name labelled)

/-- A nonterminal without children, told from a node with the number of its children. -/
def isBare (entry : DerivationNode × Nat) : Bool :=
  decide (entry.1.symbol.kind = .nonterminal ∧ entry.2 = 0)

theorem outline_all_labelled (trees : List DerivationTree) :
    List.Forall₂ Labelled trees (outlineAll trees) := by
  induction trees using RoseTree.row_induction with
  | nil => exact List.Forall₂.nil
  | cons node children rest below beside =>
      apply List.Forall₂.cons _ beside
      cases children with
      | cons first others => exact Labelled.inner (List.cons_ne_nil _ _) below
      | nil =>
          unfold outline Symbol.isTerminal
          cases kind : node.symbol.kind with
          | terminal => exact Labelled.token kind
          | nonterminal => exact Labelled.bare kind

theorem outline_labelled (tree : DerivationTree) : Labelled tree tree.outline := by
  cases outline_all_labelled [tree] with
  | cons labelled _ => exact labelled

theorem size_outline_all (trees : List DerivationTree) :
    RoseTree.sizeAll (outlineAll trees) =
      RoseTree.sizeAll trees + (trees.flatMap RoseTree.preorder).countP isBare := by
  induction trees using RoseTree.row_induction with
  | nil => rfl
  | cons node children rest below beside =>
      rw [List.flatMap_cons, List.countP_append, RoseTree.preorder_node, List.countP_cons]
      cases children with
      | cons first others =>
          have branching : isBare (node, (first :: others).length) = false := by simp [isBare]
          change RoseTree.sizeAll (outlineAll (first :: others)) + 1 + _ =
            RoseTree.sizeAll (first :: others) + 1 + _ + _
          rw [below, beside, branching]
          simp only [Bool.false_eq_true, if_false]
          omega
      | nil =>
          unfold outlineAll outline Symbol.isTerminal
          rw [RoseTree.sizeAll, beside]
          cases kind : node.symbol.kind with
          | terminal =>
              simp [isBare, kind, RoseTree.size, RoseTree.sizeAll]
              omega
          | nonterminal =>
              simp [isBare, kind, RoseTree.size, RoseTree.sizeAll]
              omega

/-- There is a node for each node of the tree and for each missing child. -/
theorem size_outline (tree : DerivationTree) :
    tree.outline.size = tree.size + tree.preorder.countP isBare := by
  have total := size_outline_all [tree]
  simpa [outlineAll, RoseTree.sizeAll] using total

end DerivationTree

namespace Picture

open RoseTree

/-- The nodes that a node has edges to, in ascending order. -/
def successors (picture : Picture) (number : Nat) : List Nat :=
  (List.range picture.nodes.length).filter fun target => (number, target) ∈ picture.edges

/-- Reads a tree from a node on, successor by successor, down to a depth. -/
def readTo (picture : Picture) : Nat → Nat → Option (RoseTree String)
  | 0, _ => none
  | depth + 1, number => do
      let node ← picture.nodes.find? fun node => node.number = number
      let children ← (picture.successors number).mapM (picture.readTo depth)
      return .node node.label children

/-- The nodes show a tree from a number on: the root bears its label, and the children are shown
under consecutive numbers. -/
inductive Shows (nodes : List PictureNode) : Nat → RoseTree String → Prop
  | node {number : Nat} {label : String} {children : List (RoseTree String)} (first : Nat)
      (labelled : ∃ node ∈ nodes, node.number = number ∧ node.label = label)
      (linked : (nodes.filter fun node => node.parent = some number).map (·.number) =
        List.range' first children.length)
      (each : ∀ place (inside : place < children.length),
        Shows nodes (first + place) children[place]) :
      Shows nodes number (.node label children)

theorem Draws.shows {layer first : Nat} {row : Row} {rows : List (List PictureNode)}
    (draws : Draws layer first row rows) {front : List PictureNode}
    (front_earlier : ∀ node ∈ front, ∀ parent ∈ node.parent, parent < first)
    (earlier : ∀ entry ∈ row, ∀ parent ∈ entry.2, parent < first) :
    ∀ place (inside : place < row.length),
      Shows (front ++ rows.flatten) (first + place) row[place].1 := by
  induction draws generalizing front with
  | done =>
      intro place inside
      cases inside
  | @next layer first row rows filled below ih =>
      intro place inside
      have here : Draws layer first row (rowNodes layer first row :: rows) := .next filled below
      have split : row = row.take place ++ row[place] :: row.drop (place + 1) := by
        rw [← List.drop_eq_getElem_cons inside, List.take_append_drop]
      have counted : (row.take place).length = place := by
        rw [List.length_take]
        omega
      generalize entry : row[place] = root at split
      rcases root with ⟨⟨label, children⟩, parent⟩
      apply Shows.node (first + row.length + (rowBelow first (row.take place)).length)
      · refine ⟨⟨first + place, label, layer, parent⟩, ?_, rfl, rfl⟩
        apply List.mem_append_right
        apply List.mem_append_left
        apply List.mem_of_getElem? (i := place)
        rw [row_node_at layer first row inside, entry]
        rfl
      · have linked := here.children_of front_earlier earlier split
        rw [counted] at linked
        rw [linked, row_numbers, List.length_map]
        rfl
      · intro child bounded
        have located := row_below_at first (row.take place) (row.drop (place + 1))
          (.node label children) parent bounded
        rw [← split] at located
        rcases List.getElem?_eq_some_iff.1 located with ⟨deep, same⟩
        have front_above : ∀ node ∈ front ++ rowNodes layer first row, ∀ parent ∈ node.parent,
            parent < first + row.length := by
          intro node member number linked
          rcases List.mem_append.1 member with before | beside
          · have low := front_earlier node before number linked
            omega
          · rcases row_node_parent beside with ⟨above, listed, told⟩
            have low := earlier above listed number (told ▸ linked)
            omega
        have shown := ih front_above row_below_earlier _ deep
        rw [same, List.append_assoc, ← List.flatten_cons, ← Nat.add_assoc] at shown
        exact shown

section Reading

variable {picture : Picture}

theorem mem_edges_iff {source target : Nat} : (source, target) ∈ picture.edges ↔
    ∃ node ∈ picture.nodes, node.parent = some source ∧ node.number = target := by
  unfold edges
  rw [List.mem_filterMap]
  simp

variable (numbered : picture.nodes.map (·.number) = List.range picture.nodes.length)

include numbered

theorem node_of_number {left right : PictureNode} (leftMember : left ∈ picture.nodes)
    (rightMember : right ∈ picture.nodes) (same : left.number = right.number) : left = right := by
  have once : (picture.nodes.map (·.number)).Nodup := numbered ▸ List.nodup_range
  exact List.inj_on_of_nodup_map once leftMember rightMember same

theorem edge_to_iff {node : PictureNode} (member : node ∈ picture.nodes) {source : Nat} :
    (source, node.number) ∈ picture.edges ↔ node.parent = some source := by
  rw [mem_edges_iff]
  constructor
  · intro drawn
    rcases drawn with ⟨other, among, linked, same⟩
    exact node_of_number numbered among member same ▸ linked
  · intro linked
    exact ⟨node, member, linked, rfl⟩

theorem successors_eq (number : Nat) : picture.successors number =
    (picture.nodes.filter fun node => node.parent = some number).map (·.number) := by
  unfold successors
  rw [← numbered, List.filter_map]
  apply congrArg
  apply List.filter_congr
  intro node member
  simp [edge_to_iff numbered member]

theorem found_by_number {node : PictureNode} (member : node ∈ picture.nodes) :
    (picture.nodes.find? fun other => other.number = node.number) = some node := by
  cases found : picture.nodes.find? fun other => other.number = node.number with
  | none =>
      have missed := List.find?_eq_none.1 found node member
      simp at missed
  | some other =>
      have same : other.number = node.number := by simpa using List.find?_some found
      rw [node_of_number numbered (List.mem_of_find?_eq_some found) member same]

omit numbered in
theorem map_m_consecutive {α : Type} {ask : Nat → Option α} {first : Nat} {answers : List α}
    (each : ∀ place (inside : place < answers.length),
      ask (first + place) = some answers[place]) :
    (List.range' first answers.length).mapM ask = some answers := by
  induction answers generalizing first with
  | nil => rfl
  | cons answer rest ih =>
      have later : (List.range' (first + 1) rest.length).mapM ask = some rest := by
        apply ih
        intro place inside
        have told := each (place + 1) (by simpa using inside)
        have next : first + (place + 1) = first + 1 + place := by omega
        rw [next] at told
        exact told
      have head : ask first = some answer := each 0 (by simp)
      rw [List.length_cons, List.range'_succ, List.mapM_cons, head, later]
      rfl

/-- Read deep enough, a picture gives the tree that it shows. -/
theorem Shows.read {number : Nat} {tree : RoseTree String}
    (shown : Shows picture.nodes number tree) {depth : Nat} (enough : tree.size ≤ depth) :
    picture.readTo depth number = some tree := by
  induction shown generalizing depth with
  | @node number label children first labelled linked _ ih =>
      rcases labelled with ⟨node, member, same, told⟩
      rw [RoseTree.size] at enough
      cases depth with
      | zero => omega
      | succ depth =>
          have below : (List.range' first children.length).mapM (picture.readTo depth) =
              some children := by
            apply map_m_consecutive
            intro place inside
            have smaller := size_mem_le (List.getElem_mem inside)
            exact ih place inside (by omega)
          rw [readTo, ← same, found_by_number numbered member, same, successors_eq numbered, linked]
          change ((List.range' first children.length).mapM (picture.readTo depth) >>= fun below =>
            some (RoseTree.node node.label below)) = _
          rw [below, told]
          rfl

end Reading

section Outlines

variable (outline : RoseTree String)

theorem draws_of_outline : Draws 0 0 [(outline, none)] (ofOutline outline).rows := by
  apply draws_of_limit
  simp [sizeAll]

theorem numbers_of_outline : (ofOutline outline).nodes.map (·.number) =
    List.range outline.size := by
  have numbers := (draws_of_outline outline).numbers
  rw [List.range_eq_range']
  simpa [nodes, sizeAll] using numbers

theorem length_of_outline : (ofOutline outline).nodes.length = outline.size := by
  have size := congrArg List.length (numbers_of_outline outline)
  simpa using size

theorem numbered_of_outline : (ofOutline outline).nodes.map (·.number) =
    List.range (ofOutline outline).nodes.length := by
  rw [length_of_outline, numbers_of_outline]

theorem shows_outline : Shows (ofOutline outline).nodes 0 outline := by
  have shown : Shows ([] ++ (ofOutline outline).rows.flatten) (0 + 0) outline :=
    (draws_of_outline outline).shows (by simp) (by simp) 0 (by simp)
  simpa [nodes] using shown

theorem root_of_outline :
    (ofOutline outline).nodes.head? = some ⟨0, outline.label, 0, none⟩ := by
  rcases (draws_of_outline outline).begins with ⟨later, joined, _⟩
  unfold nodes
  rw [joined]
  rfl

theorem no_edge_to_root (source : Nat) : (source, 0) ∉ (ofOutline outline).edges := by
  intro drawn
  have first := List.mem_of_mem_head? (Option.mem_def.2 (root_of_outline outline))
  have linked := (edge_to_iff (numbered_of_outline outline) first).1 drawn
  cases linked

/-- Each node behind the root hangs below one node, which comes before it in the row above. -/
theorem parent_of_outline {node : PictureNode} (member : node ∈ (ofOutline outline).nodes)
    (behind : node.number ≠ 0) : ∃ parent ∈ (ofOutline outline).nodes,
      node.parent = some parent.number ∧ parent.number < node.number ∧
        node.layer = parent.layer + 1 := by
  rcases (draws_of_outline outline).parent_above node member with root | above
  · have bounds := row_node_number root
    simp at bounds
    exact absurd bounds behind
  · exact above

end Outlines

theorem label_of_outline (tree : DerivationTree) :
    tree.outline.label = tree.label.symbol.name := by
  rcases tree with ⟨node, children⟩
  cases children <;> rfl

/-- The picture of a tree has a node for each node of the tree and for each missing child, numbered
from the root row by row. Each node but the root has one parent, one row higher, and the successors
of the nodes give back the labelled tree. -/
theorem tree_read_back (tree : DerivationTree) :
    (ofTree tree).nodes.map (·.number) =
      List.range (tree.size + tree.preorder.countP DerivationTree.isBare) ∧
    (ofTree tree).nodes.head? = some ⟨0, tree.label.symbol.name, 0, none⟩ ∧
    (∀ source, (source, 0) ∉ (ofTree tree).edges) ∧
    (∀ node ∈ (ofTree tree).nodes, node.number ≠ 0 → ∃ parent ∈ (ofTree tree).nodes,
      (∀ source, (source, node.number) ∈ (ofTree tree).edges ↔ source = parent.number) ∧
        parent.number < node.number ∧ node.layer = parent.layer + 1) ∧
    ((ofTree tree).nodes.Pairwise fun earlier later => earlier.layer ≤ later.layer) ∧
    ∃ labelled, DerivationTree.Labelled tree labelled ∧
      ∀ depth, (ofTree tree).nodes.length ≤ depth →
        (ofTree tree).readTo depth 0 = some labelled := by
  have numbered := numbered_of_outline tree.outline
  refine ⟨?_, ?_, no_edge_to_root tree.outline, ?_, (draws_of_outline tree.outline).layered,
    tree.outline, tree.outline_labelled, ?_⟩
  · rw [← tree.size_outline]
    exact numbers_of_outline tree.outline
  · rw [← label_of_outline]
    exact root_of_outline tree.outline
  · intro node member behind
    rcases parent_of_outline tree.outline member behind with ⟨parent, among, linked, above⟩
    refine ⟨parent, among, ?_, above⟩
    intro source
    rw [ofTree, edge_to_iff numbered member, linked, Option.some.injEq]
    exact eq_comm
  · intro depth enough
    apply (shows_outline tree.outline).read numbered
    rw [← length_of_outline]
    exact enough

/-- A tree with empty nonterminals beside and below tokens. -/
def gapped : DerivationTree :=
  .node ⟨⟨.nonterminal, 0, "S"⟩, none⟩ [
    DerivationTree.leaf ⟨.nonterminal, 1, "X"⟩,
    DerivationTree.leaf ⟨.terminal, 0, "a"⟩,
    .node ⟨⟨.nonterminal, 1, "X"⟩, none⟩ [
      DerivationTree.leaf ⟨.terminal, 1, "b"⟩,
      DerivationTree.leaf ⟨.nonterminal, 1, "X"⟩]]

theorem gapped_read_back :
    (ofTree gapped).edges = [(0, 1), (0, 2), (0, 3), (1, 4), (3, 5), (3, 6), (6, 7)] ∧
      ∃ labelled, DerivationTree.Labelled gapped labelled ∧
        (ofTree gapped).readTo 8 0 = some labelled := by
  rcases tree_read_back gapped with ⟨_, _, _, _, _, labelled, told, read⟩
  exact ⟨by decide, labelled, told, read 8 (by decide)⟩

end Picture

end GrammarKit
