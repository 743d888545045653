import GrammarKit.Proofs.Reachable

/-!
# Recursion in the rule graph

A node recurs when the arcs lead from it to a node that has a way back to itself. Along the arcs of
any other node fewer and fewer nodes are in reach. So where each node has an arc to another one of
the same set, all of them recur. Nodes whose arcs all lead out of the set are dropped until no such
node is left, and what is left are the nodes that recur.
-/

namespace GrammarKit

set_option autoImplicit false

namespace RuleGraph

variable {graph : RuleGraph} {node next : Int} {left : IndexSet}

/-- The arcs lead to a node that has a way back to itself. -/
def Recurs (graph : RuleGraph) (node : Int) : Prop :=
  ∃ knot, graph.Leads node knot ∧ Relation.TransGen graph.Arc knot knot

theorem Recurs.behind {origin : Int} (path : graph.Leads origin node)
    (recurs : graph.Recurs node) : graph.Recurs origin := by
  obtain ⟨knot, later, round⟩ := recurs
  exact ⟨knot, path.trans later, round⟩

theorem Recurs.onward (recurs : graph.Recurs node) : ∃ next, graph.Arc node next ∧
    graph.Recurs next := by
  obtain ⟨knot, path, round⟩ := recurs
  obtain ⟨next, arc, later⟩ : ∃ next, graph.Arc node next ∧ graph.Leads next knot := by
    rcases Relation.ReflTransGen.cases_head path with rfl | ⟨next, arc, later⟩
    · exact Relation.TransGen.head'_iff.1 round
    · exact ⟨next, arc, later⟩
  exact ⟨next, arc, knot, later, round⟩

section Span

/-- How many nodes are in reach, the node itself included. -/
def span (graph : RuleGraph) (node : Int) : Nat :=
  (graph.closure (SortedSet.singleton node)).size

/-- An arc from which there is no way back leads to where fewer nodes are in reach. -/
theorem span_decreases (arc : graph.Arc node next)
    (straight : ¬ Relation.TransGen graph.Arc node node) : graph.span next < graph.span node := by
  have included : ∀ target ∈ graph.closure (SortedSet.singleton next),
      target ∈ graph.closure (SortedSet.singleton node) := by
    intro target found
    exact mem_closure_of_node.2 (.head arc (mem_closure_of_node.1 found))
  rcases SortedSet.eq_or_size_lt included with same | less
  · have own : node ∈ graph.closure (SortedSet.singleton node) := mem_closure_of_node.2 .refl
    rw [same] at own
    exact absurd (.head' arc (mem_closure_of_node.1 own)) straight
  · exact less

theorem span_decreases_of_straight (straight : ¬ graph.Recurs node) (arc : graph.Arc node next) :
    graph.span next < graph.span node :=
  span_decreases arc fun round => straight ⟨node, .refl, round⟩

/-- Where one can always go on inside a finite set, one comes back to some place. -/
theorem recurs_of_onward (onward : ∀ node ∈ left, ∃ next ∈ left, graph.Arc node next)
    (member : node ∈ left) : graph.Recurs node := by
  induction reach : graph.span node using Nat.strong_induction_on generalizing node with
  | _ size ih =>
      by_cases round : Relation.TransGen graph.Arc node node
      · exact ⟨node, .refl, round⟩
      · obtain ⟨next, inside, arc⟩ := onward node member
        have less := span_decreases arc round
        rw [reach] at less
        exact (ih _ less inside rfl).behind (.single arc)

/-- All nodes in reach of the origin, in an order in which no arc leads back. -/
structure Forward (graph : RuleGraph) (origin : Int) (order : List Int) : Prop where
  listed : ∀ node, node ∈ order ↔ graph.Leads origin node
  onward : order.Pairwise fun earlier later => ¬ graph.Arc later earlier

theorem Forward.further {origin : Int} {before later : List Int}
    (forward : graph.Forward origin (before ++ node :: later)) (arc : graph.Arc node next)
    (apart : next ≠ node) : next ∈ later := by
  have own := (forward.listed node).1 (by simp)
  have reached := (forward.listed next).2 (own.tail arc)
  rcases List.mem_append.1 reached with earlier | onward
  · exact absurd arc ((List.pairwise_append.1 forward.onward).2.2 next earlier node (by simp))
  · exact (List.mem_cons.1 onward).resolve_left apart

/-- From more nodes in reach to fewer. -/
def byWidth (graph : RuleGraph) (earlier later : Int) : Bool :=
  decide (graph.span later ≤ graph.span earlier)

/-- Sorted by what is in reach, no arc leads back. -/
theorem exists_forward {origin : Int} (straight : ¬ graph.Recurs origin) :
    ∃ order, graph.Forward origin order := by
  have trans : ∀ first second third, graph.byWidth first second → graph.byWidth second third →
      graph.byWidth first third := by
    intro first second third high low
    exact decide_eq_true (Nat.le_trans (of_decide_eq_true low) (of_decide_eq_true high))
  have total : ∀ first second, graph.byWidth first second || graph.byWidth second first := by
    intro first second
    rw [Bool.or_eq_true]
    exact (Nat.le_total _ _).imp decide_eq_true decide_eq_true
  have descending := List.pairwise_mergeSort trans total
    (graph.closure (SortedSet.singleton origin)).toList
  refine ⟨_, ?_, List.Pairwise.imp_of_mem ?_ descending⟩
  · intro node
    rw [List.mem_mergeSort, SortedSet.mem_to_list, mem_closure_of_node]
  · intro earlier later _ found sorted arc
    have led := mem_closure_of_node.1 (SortedSet.mem_to_list.1 (List.mem_mergeSort.1 found))
    have fewer := span_decreases_of_straight (fun recurs => straight (recurs.behind led)) arc
    exact absurd (of_decide_eq_true sorted) (Nat.not_le.2 fewer)

end Span

section Dropping

theorem mem_drop_end {step : Int × IndexSet} {other : Int} (found : other ∈ dropEnd left step) :
    other ∈ left := by
  unfold dropEnd at found
  split at found
  · exact found
  · exact (SortedSet.mem_filter.1 found).1

theorem drop_end_shrinks (left : IndexSet) (step : Int × IndexSet) :
    dropEnd left step = left ∨ (dropEnd left step).size < left.size := by
  have included : ∀ other ∈ dropEnd left step, other ∈ left := fun _ found => mem_drop_end found
  rcases SortedSet.eq_or_size_lt included with same | less
  · exact Or.inl same.symm
  · exact Or.inr less

/-- A node is not dropped while one of its arcs leads to what is left. -/
theorem drop_end_keeps {other : Int} (member : other ∈ left)
    (onward : ∃ target ∈ left, graph.Arc other target) :
    other ∈ dropEnd left (node, graph.successors node) := by
  unfold dropEnd
  split
  · exact member
  · rename_i ended
    refine SortedSet.mem_filter.2 ⟨member, decide_eq_true ?_⟩
    rintro rfl
    obtain ⟨target, inside, arc⟩ := onward
    apply ended
    exact List.any_eq_true.2 ⟨target, mem_successors_iff.2 arc, decide_eq_true inside⟩

/-- What is left while nodes are dropped: nodes, and all that recur. -/
structure Dropping (graph : RuleGraph) (left : IndexSet) : Prop where
  inside : ∀ node ∈ left, node ∈ graph.nodes
  recurring : ∀ node ∈ graph.nodes, graph.Recurs node → node ∈ left

theorem Dropping.after_drop (dropping : Dropping graph left)
    (arcs_inside : ∀ node next, graph.Arc node next → next ∈ graph.nodes) (node : Int) :
    Dropping graph (dropEnd left (node, graph.successors node)) where
  inside := fun other found => dropping.inside other (mem_drop_end found)
  recurring := by
    intro other listed recurs
    obtain ⟨target, arc, again⟩ := recurs.onward
    have ahead := dropping.recurring target (arcs_inside other target arc) again
    exact drop_end_keeps (dropping.recurring other listed recurs) ⟨target, ahead, arc⟩

/-- Every node with its successors, there and back. -/
def steps (graph : RuleGraph) : List (Int × IndexSet) :=
  (graph.nodes.toList.map fun node => (node, graph.successors node)) ++
    (graph.nodes.toList.map fun node => (node, graph.successors node)).reverse

theorem mem_steps_iff {step : Int × IndexSet} :
    step ∈ graph.steps ↔ ∃ node ∈ graph.nodes, (node, graph.successors node) = step := by
  simp [steps]

theorem Dropping.size_le (dropping : Dropping graph left) : left.size ≤ graph.nodes.size :=
  SortedSet.size_le_of_covered dropping.inside

theorem Dropping.initially (graph : RuleGraph) : Dropping graph graph.nodes :=
  ⟨fun _ found => found, fun _ listed _ => listed⟩

variable (arcs_inside : ∀ node next, graph.Arc node next → next ∈ graph.nodes)

include arcs_inside

theorem Dropping.after_step {step : Int × IndexSet} (member : step ∈ graph.steps)
    (dropping : Dropping graph left) : Dropping graph (dropEnd left step) := by
  obtain ⟨node, _, rfl⟩ := mem_steps_iff.1 member
  exact dropping.after_drop arcs_inside node

theorem endless_dropping : Dropping graph graph.endless :=
  settled_fold_keeps (fun _ member _ dropping => dropping.after_step arcs_inside member) _
    (Dropping.initially graph)

theorem endless_idle {step : Int × IndexSet} (member : step ∈ graph.steps) :
    dropEnd graph.endless step = graph.endless := by
  have grows : ∀ step ∈ graph.steps, ∀ left, Dropping graph left → dropEnd left step = left ∨
      graph.nodes.size - left.size < graph.nodes.size - (dropEnd left step).size := by
    intro step _ left dropping
    have bounded := dropping.size_le
    rcases drop_end_shrinks left step with same | less
    · exact Or.inl same
    · exact Or.inr (by omega)
  have bounded : ∀ left : IndexSet, Dropping graph left →
      graph.nodes.size - left.size ≤ graph.nodes.size := fun _ _ => Nat.sub_le _ _
  exact settled_is_closed (fun _ among _ dropping => dropping.after_step arcs_inside among)
    grows bounded (Dropping.initially graph) (by omega) step member

theorem endless_onward (member : node ∈ graph.endless) :
    ∃ next ∈ graph.endless, graph.Arc node next := by
  have listed := (endless_dropping arcs_inside).inside node member
  have idle := endless_idle arcs_inside (mem_steps_iff.2 ⟨node, listed, rfl⟩)
  unfold dropEnd at idle
  split at idle
  · rename_i goes_on
    obtain ⟨next, successor, inside⟩ := List.any_eq_true.1 goes_on
    exact ⟨next, of_decide_eq_true inside, mem_successors_iff.1 successor⟩
  · rw [← idle] at member
    have apart := of_decide_eq_true (SortedSet.mem_filter.1 member).2
    exact absurd rfl apart

theorem mem_endless_iff (listed : node ∈ graph.nodes) :
    node ∈ graph.endless ↔ graph.Recurs node := by
  constructor
  · exact recurs_of_onward fun _ member => endless_onward arcs_inside member
  · exact (endless_dropping arcs_inside).recurring node listed

end Dropping

end RuleGraph

end GrammarKit
