import GrammarKit.Proofs.Report.Exact

/-!
# Paths between nonterminals

A path in the rule graph has at least one arc, and it is there exactly when its origin derives a
form with its target in at least one step. So a nonterminal has a path to itself exactly when it is
recursive. The reachable set starts with the augmented start itself, and what it holds besides are
the targets of the paths from there. Both are answered for every grammar that is well-formed,
whatever cycles its rules make.
-/

namespace GrammarKit

set_option autoImplicit false

namespace RuleGraph

variable {graph : RuleGraph} {node target : Int}

theorem mem_below_iff : target ∈ graph.below node ↔ Relation.TransGen graph.Arc node target := by
  unfold below
  rw [mem_closure_iff, Relation.TransGen.head'_iff]
  simp only [mem_successors_iff]
  rfl

/-- Between nodes the search for a path comes to an answer, and to the right one. -/
theorem has_path_answered (origin_known : node ∈ graph.nodes)
    (target_known : target ∈ graph.nodes) :
    ∃ answer, graph.hasPath node target = .ok answer ∧
      (answer = true ↔ Relation.TransGen graph.Arc node target) := by
  unfold hasPath
  rw [if_neg (not_not_intro origin_known), if_neg (not_not_intro target_known)]
  by_cases barren : (graph.successors node).toList.isEmpty
  · rw [if_pos barren]
    refine ⟨false, rfl, ?_⟩
    apply iff_of_false Bool.false_ne_true
    intro path
    obtain ⟨next, arc, _⟩ := Relation.TransGen.head'_iff.1 path
    have listed : next ∈ (graph.successors node).toList := mem_successors_iff.2 arc
    rw [List.isEmpty_iff.1 barren] at listed
    cases listed
  · rw [if_neg barren]
    exact ⟨_, rfl, decide_eq_true_iff.trans mem_below_iff⟩

end RuleGraph

namespace Grammar

variable {grammar : Grammar} {origin target : Symbol}

def ReachesProperly (grammar : Grammar) (origin symbol : Symbol) : Prop :=
  ∃ before after, grammar.DerivesProperly [origin] (before ++ symbol :: after)

theorem reaches_properly_iff : grammar.ReachesProperly origin target ↔
    ∃ production ∈ grammar.productions, production.lhs = origin ∧
      ∃ before after, grammar.Derives production.rhs (before ++ target :: after) := by
  constructor
  · intro reached
    obtain ⟨before, after, next, first, later⟩ := reached
    obtain ⟨production, listed, head, rfl⟩ := first.of_symbol
    exact ⟨production, listed, head, before, after, later⟩
  · intro reached
    obtain ⟨production, listed, rfl, before, after, later⟩ := reached
    exact ⟨before, after, production.rhs, .of_production listed, later⟩

theorem Reaches.behind_occurrence {production : Production}
    (listed : production ∈ grammar.productions) {next : Symbol} (occurs : next ∈ production.rhs)
    (reached : grammar.Reaches next target) : grammar.ReachesProperly production.lhs target := by
  obtain ⟨front, back, shape⟩ := List.append_of_mem occurs
  obtain ⟨before, after, derivation⟩ := reached
  have moved := derivation.inside front back
  refine reaches_properly_iff.2 ⟨production, listed, rfl, front ++ before, after ++ back, ?_⟩
  rw [shape]
  simpa using moved

theorem path_iff (whole : grammar.WellFormed) (originMember : origin ∈ grammar.nonterminals)
    (targetMember : target ∈ grammar.nonterminals) :
    Relation.TransGen grammar.ruleGraph.Arc origin.index target.index ↔
      grammar.ReachesProperly origin target := by
  rw [Relation.TransGen.head'_iff]
  constructor
  · intro path
    obtain ⟨_, arc, later⟩ := path
    obtain ⟨production, listed, next, occurs, nonterminal, head, rfl⟩ := arc_iff.1 arc
    have nextMember := whole.nonterminal_known (whole.body_known listed next occurs) nonterminal
    have reached := (leads_iff whole nextMember targetMember).1 later
    have proper := reached.behind_occurrence listed occurs
    rwa [whole.eq_of_same_index (whole.heads_known production listed) originMember head] at proper
  · intro reached
    obtain ⟨production, listed, rfl, before, after, derivation⟩ := reaches_properly_iff.1 reached
    have kind := whole.nonterminal_kind targetMember
    obtain ⟨next, occurs, nonterminal, later⟩ :=
      led_from_form whole derivation target (by simp) kind
    exact ⟨next.index, arc_iff.2 ⟨production, listed, next, occurs, nonterminal, rfl, rfl⟩, later⟩

theorem rule_graph_node (member : origin ∈ grammar.nonterminals) :
    origin.index ∈ grammar.ruleGraph.nodes :=
  SortedSet.mem_of_list.2 (List.mem_append_left _ (List.mem_map_of_mem member))

/-- Whether one nonterminal has a path to another is answered, and so is which ones are reachable.
Both answers are about derivations. -/
theorem paths_are_derivations (whole : grammar.WellFormed) :
    (∀ origin ∈ grammar.nonterminals, ∀ target ∈ grammar.nonterminals,
      ∃ answer, grammar.hasPath origin target = .ok answer ∧
        (answer = true ↔ grammar.ReachesProperly origin target)) ∧
    ∃ reached, grammar.reachable = .ok reached ∧
      ∀ index, index ∈ reached ↔ ∃ symbol ∈ grammar.nonterminals, symbol.index = index ∧
        grammar.Reaches grammar.augmentedStart symbol := by
  constructor
  · intro origin originMember target targetMember
    obtain ⟨answer, answered, exact⟩ :=
      RuleGraph.has_path_answered (rule_graph_node originMember) (rule_graph_node targetMember)
    exact ⟨answer, answered, exact.trans (path_iff whole originMember targetMember)⟩
  · have start := whole.augmented_start_known
    refine ⟨_, if_pos (rule_graph_node start), ?_⟩
    intro index
    rw [RuleGraph.mem_closure_of_node]
    constructor
    · exact led_to_reached whole start
    · intro reached
      obtain ⟨symbol, member, rfl, derived⟩ := reached
      exact (leads_iff whole start member).2 derived

/-- Among comparisons the rule that leads only to itself has a path to itself, and the one without
alternatives has none. Neither is reached from the augmented start. -/
theorem paths_among_comparisons :
    Declarations.comparisons.WellFormed ∧
      Declarations.comparisons.ReachesProperly ⟨.nonterminal, 2, "Y"⟩ ⟨.nonterminal, 2, "Y"⟩ ∧
      ¬ Declarations.comparisons.ReachesProperly ⟨.nonterminal, 1, "X"⟩ ⟨.nonterminal, 1, "X"⟩ ∧
      ¬ Declarations.comparisons.Reaches Declarations.comparisons.augmentedStart
        ⟨.nonterminal, 2, "Y"⟩ := by
  have whole : Declarations.comparisons.WellFormed := by decide
  obtain ⟨paths, reached, found, exact⟩ := paths_are_derivations whole
  obtain ⟨recursive, loop, loopExact⟩ :=
    paths ⟨.nonterminal, 2, "Y"⟩ (by decide) ⟨.nonterminal, 2, "Y"⟩ (by decide)
  obtain ⟨barren, dead, deadExact⟩ :=
    paths ⟨.nonterminal, 1, "X"⟩ (by decide) ⟨.nonterminal, 1, "X"⟩ (by decide)
  have looped : Declarations.comparisons.hasPath ⟨.nonterminal, 2, "Y"⟩ ⟨.nonterminal, 2, "Y"⟩ =
      .ok true := by decide +kernel
  have stopped : Declarations.comparisons.hasPath ⟨.nonterminal, 1, "X"⟩ ⟨.nonterminal, 1, "X"⟩ =
      .ok false := by decide +kernel
  have within : Declarations.comparisons.reachable = .ok ⟨[0, 3], by decide⟩ := by decide +kernel
  refine ⟨whole, loopExact.1 (Except.ok.inj (loop.symm.trans looped)), ?_, ?_⟩
  · intro proper
    have answer := deadExact.2 proper
    rw [answer, stopped] at dead
    cases dead
  · intro derived
    have member := (exact 2).2 ⟨⟨.nonterminal, 2, "Y"⟩, by decide, rfl, derived⟩
    obtain rfl := Except.ok.inj (found.symm.trans within)
    revert member
    decide

end Grammar

end GrammarKit
