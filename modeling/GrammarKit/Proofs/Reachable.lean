import GrammarKit.Grammar.RuleGraph
import GrammarKit.Proofs.Derivations
import GrammarKit.Proofs.Saturation
import GrammarKit.Proofs.Tables
import Mathlib.Logic.Relation

/-!
# Reachable nonterminals

The closure of a set in the rule graph holds what the arcs lead to and nothing else. In a
well-formed grammar the arcs lead from one nonterminal to another exactly when the first one derives
a form with the second one in it, so the reachable nonterminals are those in the forms of the
augmented start.
-/

namespace GrammarKit

set_option autoImplicit false

namespace RuleGraph

variable {graph : RuleGraph} {origins : IndexSet}

def Arc (graph : RuleGraph) (origin target : Int) : Prop := (origin, target) ∈ graph.arcs

/-- Any number of arcs, one behind the other. -/
def Leads (graph : RuleGraph) : Int → Int → Prop := Relation.ReflTransGen graph.Arc

def follow (known : IndexSet) (arc : Int × Int) : IndexSet :=
  if arc.1 ∈ known then known.insert arc.2 else known

theorem mem_follow {known : IndexSet} {arc : Int × Int} {node : Int} :
    node ∈ follow known arc ↔ node ∈ known ∨ arc.1 ∈ known ∧ node = arc.2 := by
  unfold follow
  split
  · rename_i inside
    rw [SortedSet.mem_insert, or_comm]
    simp [inside]
  · rename_i outside
    simp [outside]

theorem follow_grows (known : IndexSet) (arc : Int × Int) :
    follow known arc = known ∨ known.size < (follow known arc).size :=
  SortedSet.eq_or_size_lt fun _ found => mem_follow.2 (Or.inl found)

/-- What holds while the closure grows: the origins are in it, and all else is led to. -/
structure Closing (graph : RuleGraph) (origins known : IndexSet) : Prop where
  origins_in : ∀ origin ∈ origins, origin ∈ known
  led_to : ∀ node ∈ known, ∃ origin ∈ origins, graph.Leads origin node
  bounded : ∀ node ∈ known, node ∈ origins.toList ++ graph.arcs.map (·.2)

theorem Closing.initially (graph : RuleGraph) (origins : IndexSet) :
    Closing graph origins origins where
  origins_in := fun _ found => found
  led_to := fun node found => ⟨node, found, .refl⟩
  bounded := fun _ found => List.mem_append_left _ found

theorem Closing.after_follow {known : IndexSet} (closing : Closing graph origins known)
    {arc : Int × Int} (member : arc ∈ graph.arcs) : Closing graph origins (follow known arc) := by
  constructor
  · intro origin among
    exact mem_follow.2 (Or.inl (closing.origins_in origin among))
  · intro node found
    rcases mem_follow.1 found with earlier | ⟨inside, rfl⟩
    · exact closing.led_to node earlier
    · obtain ⟨origin, among, path⟩ := closing.led_to arc.1 inside
      exact ⟨origin, among, path.tail member⟩
  · intro node found
    rcases mem_follow.1 found with earlier | ⟨_, rfl⟩
    · exact closing.bounded node earlier
    · exact List.mem_append_right _ (List.mem_map_of_mem member)

theorem Closing.size_le {known : IndexSet} (closing : Closing graph origins known) :
    known.size ≤ origins.size + graph.arcs.length := by
  have covered := SortedSet.size_le_of_covered closing.bounded
  rwa [List.length_append, List.length_map] at covered

theorem mem_sweep {arc : Int × Int} (member : arc ∈ graph.arcs ++ graph.arcs.reverse) :
    arc ∈ graph.arcs := by
  simpa using member

theorem closure_closing (graph : RuleGraph) (origins : IndexSet) :
    Closing graph origins (graph.closure origins) := by
  apply settled_fold_keeps _ _ (Closing.initially graph origins)
  intro arc member known closing
  exact closing.after_follow (mem_sweep member)

theorem closure_closed {arc : Int × Int} (member : arc ∈ graph.arcs)
    (inside : arc.1 ∈ graph.closure origins) : arc.2 ∈ graph.closure origins := by
  have enough : origins.size + graph.arcs.length < graph.arcs.length + 1 + origins.size := by omega
  have idle := settled_is_closed (fun _ among _ closing => Closing.after_follow closing
      (mem_sweep among)) (fun arc _ known _ => follow_grows known arc)
    (fun _ closing => Closing.size_le closing) (Closing.initially graph origins) enough arc
    (List.mem_append_left _ member)
  change follow (graph.closure origins) arc = graph.closure origins at idle
  rw [← idle]
  exact mem_follow.2 (Or.inr ⟨inside, rfl⟩)

theorem mem_closure_iff {node : Int} :
    node ∈ graph.closure origins ↔ ∃ origin ∈ origins, graph.Leads origin node := by
  constructor
  · exact (closure_closing graph origins).led_to node
  · intro led
    rcases led with ⟨origin, among, path⟩
    induction path with
    | refl => exact (closure_closing graph origins).origins_in origin among
    | tail _ arc ih => exact closure_closed arc ih

theorem mem_successors_iff {node next : Int} :
    next ∈ graph.successors node ↔ graph.Arc node next := by
  simp [successors, Arc]

theorem mem_closure_of_node {origin node : Int} :
    node ∈ graph.closure (SortedSet.singleton origin) ↔ graph.Leads origin node := by
  rw [mem_closure_iff]
  simp

end RuleGraph

namespace Grammar

variable {grammar : Grammar}

theorem arc_iff {origin target : Int} : grammar.ruleGraph.Arc origin target ↔
    ∃ production ∈ grammar.productions, ∃ symbol ∈ production.rhs,
      symbol.isTerminal = false ∧ production.lhs.index = origin ∧ symbol.index = target := by
  simp [RuleGraph.Arc, ruleGraph, Production.arcs, Symbol.isNonterminal, and_assoc]

theorem led_from_form (whole : grammar.WellFormed) {form final : List Symbol}
    (derivation : grammar.Derives form final) :
    ∀ symbol ∈ final, symbol.isTerminal = false → ∃ origin ∈ form,
      origin.isTerminal = false ∧ grammar.ruleGraph.Leads origin.index symbol.index := by
  induction derivation with
  | refl => exact fun symbol member nonterminal => ⟨symbol, member, nonterminal, .refl⟩
  | tail _ last ih =>
      cases last with
      | @expand production member before after =>
          intro symbol occurs nonterminal
          simp only [List.mem_append] at occurs
          rcases occurs with (front | inside) | back
          · exact ih symbol (by simp [front]) nonterminal
          · have kind := whole.nonterminal_kind (whole.heads_known production member)
            obtain ⟨origin, among, originKind, path⟩ := ih production.lhs (by simp) kind
            have arc := arc_iff.2 ⟨production, member, symbol, inside, nonterminal, rfl, rfl⟩
            exact ⟨origin, among, originKind, path.tail arc⟩
          · exact ih symbol (by simp [back]) nonterminal

/-- The arcs lead from the origin to each nonterminal of the forms it derives. -/
theorem leads_into_form (whole : grammar.WellFormed) {origin : Symbol} {form : List Symbol}
    (derivation : grammar.Derives [origin] form) :
    ∀ symbol ∈ form, symbol.isTerminal = false →
      grammar.ruleGraph.Leads origin.index symbol.index := by
  intro symbol member nonterminal
  obtain ⟨_, among, _, path⟩ := led_from_form whole derivation symbol member nonterminal
  rwa [List.mem_singleton.1 among] at path

theorem led_to_reached (whole : grammar.WellFormed) {origin : Symbol} {node : Int}
    (member : origin ∈ grammar.nonterminals)
    (path : grammar.ruleGraph.Leads origin.index node) :
    ∃ symbol ∈ grammar.nonterminals, symbol.index = node ∧ grammar.Reaches origin symbol := by
  induction path with
  | refl => exact ⟨origin, member, rfl, .refl origin⟩
  | tail _ arc ih =>
      obtain ⟨symbol, among, rfl, reached⟩ := ih
      obtain ⟨production, listed, next, occurs, nonterminal, head, rfl⟩ := arc_iff.1 arc
      have same := whole.eq_of_same_index (whole.heads_known production listed) among head
      have known := whole.nonterminal_known (whole.body_known listed next occurs) nonterminal
      exact ⟨next, known, rfl, reached.trans (same ▸ .of_production listed occurs)⟩

theorem leads_iff (whole : grammar.WellFormed) {origin target : Symbol}
    (originMember : origin ∈ grammar.nonterminals) (targetMember : target ∈ grammar.nonterminals) :
    grammar.ruleGraph.Leads origin.index target.index ↔ grammar.Reaches origin target := by
  constructor
  · intro path
    obtain ⟨symbol, member, same, reached⟩ := led_to_reached whole originMember path
    rwa [whole.eq_of_same_index member targetMember same] at reached
  · intro reached
    rcases reached with ⟨before, after, derivation⟩
    exact leads_into_form whole derivation target (by simp) (whole.nonterminal_kind targetMember)

theorem reachable_exact (whole : grammar.WellFormed) :
    ∃ reached, grammar.reachable = .ok reached ∧ ∀ symbol ∈ grammar.nonterminals,
      (symbol.index ∈ reached ↔ grammar.Reaches grammar.augmentedStart symbol) := by
  have start := whole.augmented_start_known
  have node : grammar.augmentedStart.index ∈ grammar.ruleGraph.nodes := by
    apply SortedSet.mem_of_list.2
    exact List.mem_append_left _ (List.mem_map_of_mem start)
  refine ⟨_, if_pos node, ?_⟩
  intro symbol member
  rw [RuleGraph.mem_closure_of_node, leads_iff whole start member]

end Grammar

end GrammarKit
