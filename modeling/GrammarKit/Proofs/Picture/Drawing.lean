import GrammarKit.Proofs.Picture.ReadBack
import Mathlib.Algebra.Order.Ring.Rat
import Mathlib.Data.List.Forall2
import Mathlib.Data.List.Range
import Mathlib.Tactic.Linarith
import Mathlib.Tactic.Ring

/-!
# Drawings without crossings

A drawing puts each row on a level of its own, with its nodes one step apart around the middle, and
joins each node with its parent by a straight line. The places are computed from the rows alone.
Lines do not cross because of the order in which the nodes are numbered: along a row the parents are
in order as well.
-/

namespace GrammarKit

set_option autoImplicit false

namespace Spot

def x (spot : Spot) : ℚ := spot.halfSteps / 2

/-- The root is drawn on top. -/
def y (spot : Spot) : ℚ := -spot.layer

theorem y_eq_iff {left right : Spot} : left.y = right.y ↔ left.layer = right.layer := by
  simp [y]

end Spot

namespace Picture

/-- An edge as it is drawn, from the spot of the parent to the spot of the child. -/
@[ext]
structure Line (picture : Picture) where
  upper : Spot
  lower : Spot
  upper_drawn : upper ∈ picture.spots
  lower_drawn : lower ∈ picture.spots
  joined : (upper.number, lower.number) ∈ picture.edges

/-- The point that divides a line, counted from its upper end. -/
def Line.point {picture : Picture} (line : Line picture) (part : ℚ) : ℚ × ℚ :=
  ((1 - part) * line.upper.x + part * line.lower.x,
    (1 - part) * line.upper.y + part * line.lower.y)

/-- A tree is drawn from a spot on: the children of a node get spots one level below it, which stand
one step apart, from left to right as in the tree. -/
inductive LaysOut (picture : Picture) : Spot → RoseTree String → Prop
  | node {spot : Spot} {label : String} {children : List (RoseTree String)} {below : List Spot}
      (drawn : spot ∈ picture.spots)
      (labelled : ∃ node ∈ picture.nodes, node.number = spot.number ∧ node.label = label)
      (joined : picture.successors spot.number = below.map (·.number))
      (lower : ∀ child ∈ below, child.y = spot.y - 1)
      (beside : below.IsChain fun left right => right.x = left.x + 1)
      (each : List.Forall₂ (LaysOut picture) below children) :
      LaysOut picture spot (.node label children)

section Levels

/-- Spots with consecutive numbers on one level, centred. -/
def level (layer first width : Nat) : List Spot :=
  (List.range width).map fun place => ⟨first + place, 2 * place - width, layer⟩

variable {layer first width : Nat}

theorem spots_of_row_nodes (row : Row) :
    spotsOf (rowNodes layer first row) = level layer first row.length := by
  apply List.ext_getElem
  · simp [spotsOf, level, rowNodes]
  · intro place inside bounded
    simp [spotsOf, level, rowNodes]

theorem level_layer {spot : Spot} (member : spot ∈ level layer first width) :
    spot.layer = layer := by
  rcases List.mem_map.1 member with ⟨place, _, rfl⟩
  rfl

theorem level_steps : (level layer first width).IsChain fun left right =>
    right.number = left.number + 1 ∧ right.x = left.x + 1 := by
  unfold level
  rw [List.isChain_map, List.isChain_range]
  intro place _
  constructor
  · rfl
  · simp only [Spot.x, Nat.succ_eq_add_one]
    push_cast
    ring

theorem level_apart {left right : Spot} (leftMember : left ∈ level layer first width)
    (rightMember : right ∈ level layer first width) :
    right.x - left.x = right.number - left.number := by
  rcases List.mem_map.1 leftMember with ⟨leftPlace, _, rfl⟩
  rcases List.mem_map.1 rightMember with ⟨rightPlace, _, rfl⟩
  simp only [Spot.x]
  push_cast
  ring

end Levels

section Spots

variable {picture : Picture}

theorem spots_match (picture : Picture) : picture.spots.map (fun spot => (spot.number, spot.layer)) =
    picture.nodes.map fun node => (node.number, node.layer) := by
  unfold spots nodes
  rw [List.map_flatMap, List.map_flatten, ← List.flatMap_def]
  apply congrArg picture.rows.flatMap
  funext row
  unfold spotsOf
  rw [List.map_map]
  conv_rhs => rw [← List.zipIdx_map_fst 0 row, List.map_map]
  rfl

theorem node_of_spot {spot : Spot} (drawn : spot ∈ picture.spots) :
    ∃ node ∈ picture.nodes, node.number = spot.number ∧ node.layer = spot.layer := by
  have listed : (spot.number, spot.layer) ∈
      picture.spots.map fun spot => (spot.number, spot.layer) := List.mem_map_of_mem drawn
  rw [spots_match] at listed
  rcases List.mem_map.1 listed with ⟨node, member, same⟩
  exact ⟨node, member, Prod.mk.inj same⟩

theorem spot_of_node {node : PictureNode} (member : node ∈ picture.nodes) :
    ∃ spot ∈ picture.spots, spot.number = node.number ∧ spot.layer = node.layer := by
  have listed : (node.number, node.layer) ∈
      picture.nodes.map fun node => (node.number, node.layer) := List.mem_map_of_mem member
  rw [← spots_match] at listed
  rcases List.mem_map.1 listed with ⟨spot, drawn, same⟩
  exact ⟨spot, drawn, Prod.mk.inj same⟩

theorem Draws.level_of_layer {layer first : Nat} {row : Row} {rows : List (List PictureNode)}
    (draws : Draws layer first row rows) (depth : Nat) :
    ∃ start width, (Picture.mk rows).spots.filter (fun spot => spot.layer = depth) =
      level depth start width := by
  induction draws with
  | done => exact ⟨0, 0, rfl⟩
  | @next layer first row rows _ below ih =>
      change ∃ start width, ((rowNodes layer first row :: rows).flatMap spotsOf).filter _ = _
      rw [List.flatMap_cons, List.filter_append, spots_of_row_nodes]
      by_cases here : layer = depth
      · have none_below : (rows.flatMap spotsOf).filter (fun spot => spot.layer = depth) = [] := by
          apply List.filter_eq_nil_iff.2
          intro spot drawn same
          have among : spot ∈ (Picture.mk rows).spots := drawn
          rcases node_of_spot among with ⟨node, member, _, layered⟩
          have deeper := below.layer_le node member
          have equal : spot.layer = depth := of_decide_eq_true same
          omega
        refine ⟨first, row.length, ?_⟩
        rw [none_below, List.append_nil, ← here]
        apply List.filter_eq_self.2
        intro spot member
        exact decide_eq_true (level_layer member)
      · have none_here :
            (level layer first row.length).filter (fun spot => spot.layer = depth) = [] := by
          apply List.filter_eq_nil_iff.2
          intro spot member same
          exact here ((level_layer member).symm.trans (of_decide_eq_true same))
        rw [none_here]
        exact ih

end Spots

section Outlines

variable {outline : RoseTree String}

theorem numbers_of_spots : (ofOutline outline).spots.map (·.number) =
    List.range (ofOutline outline).nodes.length := by
  have numbers := congrArg (List.map Prod.fst) (spots_match (ofOutline outline))
  rw [List.map_map, List.map_map] at numbers
  exact numbers.trans (numbered_of_outline outline)

theorem nodup_numbers (outline : RoseTree String) :
    ((ofOutline outline).spots.map (·.number)).Nodup := numbers_of_spots ▸ List.nodup_range

theorem spot_of_number {left right : Spot} (leftDrawn : left ∈ (ofOutline outline).spots)
    (rightDrawn : right ∈ (ofOutline outline).spots) (same : left.number = right.number) :
    left = right := List.inj_on_of_nodup_map (nodup_numbers outline) leftDrawn rightDrawn same

/-- On one level, places are as far apart as numbers. -/
theorem x_apart {left right : Spot} (leftDrawn : left ∈ (ofOutline outline).spots)
    (rightDrawn : right ∈ (ofOutline outline).spots) (beside : left.layer = right.layer) :
    right.x - left.x = right.number - left.number := by
  rcases (draws_of_outline outline).level_of_layer left.layer with ⟨start, width, row⟩
  have leftListed : left ∈ level left.layer start width :=
    row ▸ List.mem_filter.2 ⟨leftDrawn, decide_eq_true rfl⟩
  have rightListed : right ∈ level left.layer start width :=
    row ▸ List.mem_filter.2 ⟨rightDrawn, decide_eq_true beside.symm⟩
  exact level_apart leftListed rightListed

theorem x_lt_iff {left right : Spot} (leftDrawn : left ∈ (ofOutline outline).spots)
    (rightDrawn : right ∈ (ofOutline outline).spots) (beside : left.layer = right.layer) :
    left.x < right.x ↔ left.number < right.number := by
  have apart := x_apart leftDrawn rightDrawn beside
  rw [← sub_pos, apart, sub_pos, Nat.cast_lt]

theorem spot_of_place {left right : Spot} (leftDrawn : left ∈ (ofOutline outline).spots)
    (rightDrawn : right ∈ (ofOutline outline).spots) (sameX : left.x = right.x)
    (sameY : left.y = right.y) : left = right := by
  have apart := x_apart leftDrawn rightDrawn (Spot.y_eq_iff.1 sameY)
  rw [sameX, sub_self] at apart
  apply spot_of_number leftDrawn rightDrawn
  have same : (left.number : ℚ) = right.number := by linarith
  exact_mod_cast same

theorem layer_of_spot {spot : Spot} (drawn : spot ∈ (ofOutline outline).spots)
    {node : PictureNode} (member : node ∈ (ofOutline outline).nodes)
    (same : node.number = spot.number) : node.layer = spot.layer := by
  rcases node_of_spot drawn with ⟨other, among, number, layer⟩
  rw [node_of_number (numbered_of_outline outline) member among (same.trans number.symm)]
  exact layer

theorem nodes_of_edge {source target : Nat} (edge : (source, target) ∈ (ofOutline outline).edges) :
    ∃ upper ∈ (ofOutline outline).nodes, ∃ lower ∈ (ofOutline outline).nodes,
      upper.number = source ∧ lower.number = target ∧ lower.layer = upper.layer + 1 := by
  rcases mem_edges_iff.1 edge with ⟨lower, member, linked, same⟩
  have behind : lower.number ≠ 0 := by
    intro root
    exact no_edge_to_root outline source (root ▸ same ▸ edge)
  rcases parent_of_outline outline member behind with ⟨upper, among, above, _, layered⟩
  exact ⟨upper, among, lower, member, Option.some.inj (above.symm.trans linked), same, layered⟩

theorem parents_of_numbers {left right : PictureNode}
    (leftMember : left ∈ (ofOutline outline).nodes)
    (rightMember : right ∈ (ofOutline outline).nodes) (order : left.number < right.number) :
    InOrder left.parent right.parent := by
  have ordered : ((ofOutline outline).nodes.map (·.parent)).Pairwise InOrder :=
    (draws_of_outline outline).parents_in_order (by simp) (by simp)
  have numbered := numbered_of_outline outline
  rcases List.getElem_of_mem leftMember with ⟨leftPlace, leftInside, rfl⟩
  rcases List.getElem_of_mem rightMember with ⟨rightPlace, rightInside, rfl⟩
  have number : ∀ place (inside : place < (ofOutline outline).nodes.length),
      (ofOutline outline).nodes[place].number = place := by
    intro place inside
    have listed := congrArg (fun numbers => numbers[place]?) numbered
    simpa [inside] using listed
  rw [number, number] at order
  have apart := List.pairwise_iff_getElem.1 ordered leftPlace rightPlace (by simpa) (by simpa) order
  simpa using apart

end Outlines

/-- What is in order at both ends of two lines is in order in between. -/
theorem between_in_order {leftUpper leftLower rightUpper rightLower part : ℚ} (start : 0 ≤ part)
    (stop : part ≤ 1) (upper : leftUpper < rightUpper) (lower : leftLower < rightLower) :
    (1 - part) * leftUpper + part * leftLower < (1 - part) * rightUpper + part * rightLower := by
  rcases eq_or_lt_of_le stop with last | inside
  · rw [last]
    linarith
  · have above : (1 - part) * leftUpper < (1 - part) * rightUpper :=
      mul_lt_mul_of_pos_left upper (by linarith)
    have below : part * leftLower ≤ part * rightLower :=
      mul_le_mul_of_nonneg_left (le_of_lt lower) start
    linarith

namespace Line

variable {outline : RoseTree String} (left right : Line (ofOutline outline))

theorem lower_layer (line : Line (ofOutline outline)) :
    line.lower.layer = line.upper.layer + 1 := by
  rcases nodes_of_edge line.joined with
    ⟨upper, upperMember, lower, lowerMember, upperNumber, lowerNumber, layered⟩
  rw [← layer_of_spot line.upper_drawn upperMember upperNumber,
    ← layer_of_spot line.lower_drawn lowerMember lowerNumber]
  exact layered

theorem lower_beside (beside : left.upper.layer = right.upper.layer) :
    left.lower.layer = right.lower.layer := by
  rw [left.lower_layer, right.lower_layer, beside]

/-- Lines that start on one level end in the order in which they start. -/
theorem in_order (beside : left.upper.layer = right.upper.layer)
    (order : left.upper.x < right.upper.x) : left.lower.x < right.lower.x := by
  rw [x_lt_iff left.upper_drawn right.upper_drawn beside] at order
  rw [x_lt_iff left.lower_drawn right.lower_drawn (left.lower_beside right beside)]
  rcases mem_edges_iff.1 left.joined with ⟨leftNode, leftMember, leftLinked, leftNumber⟩
  rcases mem_edges_iff.1 right.joined with ⟨rightNode, rightMember, rightLinked, rightNumber⟩
  rw [← leftNumber, ← rightNumber]
  rcases Nat.lt_trichotomy leftNode.number rightNode.number with less | same | greater
  · exact less
  · have equal := node_of_number (numbered_of_outline outline) leftMember rightMember same
    rw [equal, rightLinked, Option.some.injEq] at leftLinked
    omega
  · -- Lower ends the other way round would have parents the other way round.
    have turned := parents_of_numbers rightMember leftMember greater _ rightLinked _ leftLinked
    omega

theorem point_height (line : Line (ofOutline outline)) (part : ℚ) :
    (line.point part).2 = -line.upper.layer - part := by
  simp only [point, Spot.y, line.lower_layer]
  push_cast
  ring

/-- Lines from one level only meet where they start. -/
theorem meet_beside (beside : left.upper.layer = right.upper.layer) {part : ℚ} (start : 0 ≤ part)
    (stop : part ≤ 1) (meet : (left.point part).1 = (right.point part).1) :
    left = right ∨ part = 0 := by
  have below := left.lower_beside right beside
  rcases lt_trichotomy left.upper.x right.upper.x with less | same | greater
  · have order := between_in_order start stop less (left.in_order right beside less)
    exact absurd meet (ne_of_lt order)
  · have upper : left.upper = right.upper :=
      spot_of_place left.upper_drawn right.upper_drawn same (Spot.y_eq_iff.2 beside)
    by_cases first : part = 0
    · exact Or.inr first
    · left
      have lowerX : left.lower.x = right.lower.x := by
        simp only [point, same] at meet
        exact mul_left_cancel₀ first (add_left_cancel meet)
      have lower : left.lower = right.lower :=
        spot_of_place left.lower_drawn right.lower_drawn lowerX (Spot.y_eq_iff.2 below)
      exact Line.ext upper lower
  · have order := between_in_order start stop greater (right.in_order left beside.symm greater)
    exact absurd meet (ne_of_gt order)

theorem meet_at_ends {leftPart rightPart : ℚ} (leftInside : leftPart ∈ Set.Icc (0 : ℚ) 1)
    (rightInside : rightPart ∈ Set.Icc (0 : ℚ) 1)
    (meet : left.point leftPart = right.point rightPart) :
    left = right ∨ (leftPart = 0 ∨ leftPart = 1) ∧ (rightPart = 0 ∨ rightPart = 1) := by
  rcases leftInside with ⟨leftStart, leftStop⟩
  rcases rightInside with ⟨rightStart, rightStop⟩
  have heights : (left.upper.layer : ℚ) + leftPart = right.upper.layer + rightPart := by
    have same := congrArg Prod.snd meet
    rw [point_height, point_height] at same
    linarith
  -- A line spans a single level, so lines from different levels touch at their ends at most.
  rcases Nat.lt_trichotomy left.upper.layer right.upper.layer with above | beside | below
  · have deeper : (left.upper.layer : ℚ) + 1 ≤ right.upper.layer := by exact_mod_cast above
    exact Or.inr ⟨Or.inr (by linarith), Or.inl (by linarith)⟩
  · have same : leftPart = rightPart := by
      rw [beside] at heights
      exact add_left_cancel heights
    rw [← same] at meet ⊢
    rcases left.meet_beside right beside leftStart leftStop (congrArg Prod.fst meet) with
      equal | first
    · exact Or.inl equal
    · exact Or.inr ⟨Or.inl first, Or.inl first⟩
  · have deeper : (right.upper.layer : ℚ) + 1 ≤ left.upper.layer := by exact_mod_cast below
    exact Or.inr ⟨Or.inl (by linarith), Or.inr (by linarith)⟩

end Line

section Drawings

variable {outline : RoseTree String}

theorem line_of_edge {edge : Nat × Nat} (member : edge ∈ (ofOutline outline).edges) :
    ∃ line : Line (ofOutline outline), (line.upper.number, line.lower.number) = edge := by
  rcases edge with ⟨source, target⟩
  rcases nodes_of_edge member with ⟨above, aboveMember, under, underMember, rfl, rfl, _⟩
  rcases spot_of_node aboveMember with ⟨upper, upperDrawn, upperNumber, _⟩
  rcases spot_of_node underMember with ⟨lower, lowerDrawn, lowerNumber, _⟩
  rw [← upperNumber, ← lowerNumber] at member ⊢
  exact ⟨⟨upper, lower, upperDrawn, lowerDrawn, member⟩, rfl⟩

theorem Shows.laid_out {number : Nat} {tree : RoseTree String}
    (shown : Shows (ofOutline outline).nodes number tree) :
    ∀ spot ∈ (ofOutline outline).spots, spot.number = number →
      LaysOut (ofOutline outline) spot tree := by
  induction shown with
  | @node number label children first labelled linked _ ih =>
      intro spot drawn same
      subst same
      let below := (ofOutline outline).spots.filter fun child =>
        (spot.number, child.number) ∈ (ofOutline outline).edges
      have joined : (ofOutline outline).successors spot.number = below.map (·.number) := by
        unfold successors
        rw [← numbers_of_spots, List.filter_map]
        rfl
      have numbers : below.map (·.number) = List.range' first children.length := by
        rw [← joined, successors_eq (numbered_of_outline outline), linked]
      have count : below.length = children.length := by
        simpa using congrArg List.length numbers
      have number : ∀ place (inside : place < below.length),
          below[place].number = first + place := by
        intro place inside
        have listed := congrArg (fun numbers => numbers[place]?) numbers
        simpa [inside, count ▸ inside] using listed
      have drawn_below : ∀ child ∈ below, child ∈ (ofOutline outline).spots :=
        fun child member => (List.mem_filter.1 member).1
      have layer : ∀ child ∈ below, child.layer = spot.layer + 1 := by
        intro child member
        have edge := of_decide_eq_true (List.mem_filter.1 member).2
        let line : Line (ofOutline outline) := ⟨spot, child, drawn, drawn_below child member, edge⟩
        exact line.lower_layer
      apply LaysOut.node drawn labelled joined
      · intro child member
        simp only [Spot.y, layer child member]
        push_cast
        ring
      · apply List.isChain_iff_getElem.2
        intro place inside
        have leftMember := List.getElem_mem (Nat.lt_of_succ_lt inside)
        have rightMember := List.getElem_mem inside
        have apart := x_apart (drawn_below _ leftMember) (drawn_below _ rightMember)
          ((layer _ leftMember).trans (layer _ rightMember).symm)
        rw [number, number] at apart
        push_cast at apart
        linarith
      · apply List.forall₂_iff_get.2
        refine ⟨count, ?_⟩
        intro place inside bounded
        exact ih place bounded _ (drawn_below _ (List.getElem_mem inside)) (number place inside)

end Drawings

/-- The spots of a picture show a tree without a crossing. -/
structure Planar (picture : Picture) (labelled : RoseTree String) : Prop where
  /-- Each node has one spot, on the level of its layer. -/
  placed : picture.spots.map (fun spot => (spot.number, spot.y)) =
    picture.nodes.map fun node => (node.number, -(node.layer : ℚ))
  apart : (picture.spots.map fun spot => (spot.x, spot.y)).Nodup
  in_steps : ∀ layer : Nat, (picture.spots.filter fun spot => spot.layer = layer).IsChain
    fun left right => right.number = left.number + 1 ∧ right.x = left.x + 1
  laid_out : ∃ root ∈ picture.spots, root.number = 0 ∧ LaysOut picture root labelled
  /-- No edge is left out, so what follows is about all of them. -/
  joined : ∀ edge ∈ picture.edges,
    ∃ line : Line picture, (line.upper.number, line.lower.number) = edge
  ordered : ∀ left right : Line picture, left.upper.y = right.upper.y →
    left.upper.x < right.upper.x → left.lower.y = right.lower.y ∧ left.lower.x < right.lower.x
  /-- Two lines have no point in common but an end of both. -/
  uncrossed : ∀ left right : Line picture, ∀ leftPart ∈ Set.Icc (0 : ℚ) 1,
    ∀ rightPart ∈ Set.Icc (0 : ℚ) 1, left.point leftPart = right.point rightPart →
      left = right ∨ (leftPart = 0 ∨ leftPart = 1) ∧ (rightPart = 0 ∨ rightPart = 1)

/-- Every tree is drawn without a crossing, with the children of each node in order. -/
theorem drawing_planar (tree : DerivationTree) :
    ∃ labelled, DerivationTree.Labelled tree labelled ∧ Planar (ofTree tree) labelled := by
  refine ⟨tree.outline, tree.outline_labelled, ?_⟩
  constructor
  case placed =>
    have same := congrArg (List.map fun place => (place.1, -(place.2 : ℚ)))
      (spots_match (ofTree tree))
    rw [List.map_map, List.map_map] at same
    exact same
  case apart =>
    have once : (ofTree tree).spots.Nodup := List.Nodup.of_map _ (nodup_numbers tree.outline)
    apply List.Nodup.map_on _ once
    intro left leftDrawn right rightDrawn same
    exact spot_of_place leftDrawn rightDrawn (congrArg Prod.fst same) (congrArg Prod.snd same)
  case in_steps =>
    intro layer
    rcases (draws_of_outline tree.outline).level_of_layer layer with ⟨first, width, row⟩
    exact row ▸ level_steps
  case laid_out =>
    have root := List.mem_of_mem_head? (Option.mem_def.2 (root_of_outline tree.outline))
    rcases spot_of_node root with ⟨spot, drawn, number, _⟩
    exact ⟨spot, drawn, number, (shows_outline tree.outline).laid_out spot drawn number⟩
  case joined =>
    intro edge member
    exact line_of_edge member
  case ordered =>
    intro left right beside order
    have layer := Spot.y_eq_iff.1 beside
    exact ⟨Spot.y_eq_iff.2 (left.lower_beside right layer), left.in_order right layer order⟩
  case uncrossed =>
    intro left right leftPart leftInside rightPart rightInside meet
    exact left.meet_at_ends right leftInside rightInside meet

theorem gapped_planar :
    (ofTree gapped).spots = [⟨0, -1, 0⟩, ⟨1, -3, 1⟩, ⟨2, -1, 1⟩, ⟨3, 1, 1⟩, ⟨4, -3, 2⟩,
      ⟨5, -1, 2⟩, ⟨6, 1, 2⟩, ⟨7, -1, 3⟩] ∧
      ∃ labelled, DerivationTree.Labelled gapped labelled ∧ Planar (ofTree gapped) labelled :=
  ⟨by decide, drawing_planar gapped⟩

end Picture

end GrammarKit
