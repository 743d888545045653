import GrammarKit.Proofs.Generator.Runs
import GrammarKit.Proofs.Recursion
import GrammarKit.Sentence.Extremes

/-!
# Recursion among fruitful productions

A production is fruitful when each symbol of its right-hand side derives some text. The graph that
the dearest text is looked up in has the arcs of the fruitful productions. What the graph calls
endless are therefore the productive nonterminals from which fruitful productions lead to one that
they lead back to. Complete trees consist of fruitful productions, so where there is no such
recursion a tree is no higher than the number of nonterminals in reach of its root.
-/

namespace GrammarKit

set_option autoImplicit false

open DerivationTree

namespace Grammar

variable {grammar : Grammar} {origin target symbol : Symbol} {production : Production}

def Fruitful (grammar : Grammar) (production : Production) : Prop :=
  production ∈ grammar.productions ∧ ∀ part ∈ production.rhs, grammar.DerivesTokens part

/-- The target stands in a fruitful production of the origin. -/
def LeadsFruitfully (grammar : Grammar) (origin target : Symbol) : Prop :=
  ∃ production, grammar.Fruitful production ∧ production.lhs = origin ∧
    target ∈ production.rhs ∧ target.isTerminal = false

/-- Fruitful productions lead to a nonterminal, over any number of them, and back to it again. -/
def Recurs (grammar : Grammar) (symbol : Symbol) : Prop :=
  ∃ knot ∈ grammar.nonterminals, Relation.ReflTransGen grammar.LeadsFruitfully symbol knot ∧
    Relation.TransGen grammar.LeadsFruitfully knot knot

theorem LeadsFruitfully.known (whole : grammar.WellFormed)
    (leads : grammar.LeadsFruitfully origin target) :
    origin ∈ grammar.nonterminals ∧ target ∈ grammar.nonterminals := by
  obtain ⟨production, ⟨listed, _⟩, rfl, occurs, nonterminal⟩ := leads
  exact ⟨whole.heads_known production listed,
    whole.nonterminal_known (whole.body_known listed target occurs) nonterminal⟩

theorem LeadsFruitfully.derives (leads : grammar.LeadsFruitfully origin target) :
    grammar.DerivesTokens origin ∧ grammar.DerivesTokens target := by
  obtain ⟨production, ⟨listed, each⟩, rfl, occurs, _⟩ := leads
  exact ⟨derives_tokens_of_production listed each, each target occurs⟩

theorem Recurs.behind (path : Relation.ReflTransGen grammar.LeadsFruitfully origin target)
    (recurs : grammar.Recurs target) : grammar.Recurs origin := by
  obtain ⟨knot, member, later, round⟩ := recurs
  exact ⟨knot, member, path.trans later, round⟩

theorem Fruitful.part_straight (fruitful : grammar.Fruitful production)
    (straight : ¬ grammar.Recurs production.lhs) {part : Symbol} (occurs : part ∈ production.rhs)
    (nonterminal : part.isTerminal = false) : ¬ grammar.Recurs part :=
  fun recurs => straight (recurs.behind (.single ⟨production, fruitful, rfl, occurs, nonterminal⟩))

theorem Fruitful.of_forest (whole : grammar.WellFormed)
    (listed : production ∈ grammar.productions) {children : List DerivationTree}
    (forest : Forest grammar production.rhs children) : grammar.Fruitful production := by
  refine ⟨listed, ?_⟩
  intro part occurs
  rw [← forest.roots] at occurs
  obtain ⟨child, among, rfl⟩ := List.mem_map.1 occurs
  exact (derives_tokens_iff whole).2 ⟨child, forest.complete child among, rfl⟩

end Grammar

namespace Generator

variable {generator : Generator} {origin target symbol : Symbol} {production : Production}

section Graph

variable (prepared : generator.Prepared)

include prepared

theorem Prepared.mem_useful_productions_iff :
    production ∈ generator.usefulProductions ↔ generator.grammar.Fruitful production := by
  unfold usefulProductions Grammar.Fruitful
  rw [List.mem_filter, prepared.productive, Bool.and_eq_true, decide_eq_true_eq]
  constructor
  · intro useful
    obtain ⟨listed, _, fruitful⟩ := useful
    exact ⟨listed, (Grammar.is_productive_iff prepared.whole listed).1 fruitful⟩
  · intro useful
    obtain ⟨listed, each⟩ := useful
    have head := prepared.whole.heads_known production listed
    have derives := Grammar.derives_tokens_of_production listed each
    exact ⟨listed, (Grammar.mem_productive_iff prepared.whole head).2 derives,
      (Grammar.is_productive_iff prepared.whole listed).2 each⟩

theorem Prepared.mem_alternatives_within_iff {indices : IndexSet}
    (placed : ∀ index ∈ indices, ∃ symbol ∈ generator.grammar.nonterminals, symbol.index = index) :
    production ∈ generator.alternativesWithin indices ↔
      generator.grammar.Fruitful production ∧ production.lhs.index ∈ indices := by
  unfold alternativesWithin Grammar.Fruitful
  rw [List.mem_filter, prepared.productive, Bool.and_eq_true, List.contains_iff_mem, List.mem_map]
  constructor
  · intro alternative
    obtain ⟨listed, ⟨index, among, same⟩, fruitful⟩ := alternative
    obtain ⟨owner, member, rfl⟩ := placed index among
    have head := prepared.whole.heads_known production listed
    obtain rfl := (prepared.whole.slot_same_iff member head).1 same
    exact ⟨⟨listed, (Grammar.is_productive_iff prepared.whole listed).1 fruitful⟩, among⟩
  · intro alternative
    obtain ⟨⟨listed, each⟩, among⟩ := alternative
    exact ⟨listed, ⟨_, among, rfl⟩, (Grammar.is_productive_iff prepared.whole listed).2 each⟩

theorem Prepared.mem_alternatives_at_iff (member : symbol ∈ generator.grammar.nonterminals) :
    production ∈ generator.alternativesWithin (SortedSet.singleton symbol.index) ↔
      generator.grammar.Fruitful production ∧ production.lhs = symbol := by
  have placed : ∀ index ∈ SortedSet.singleton symbol.index,
      ∃ symbol ∈ generator.grammar.nonterminals, symbol.index = index := by
    intro index own
    exact ⟨symbol, member, (SortedSet.mem_singleton.1 own).symm⟩
  rw [prepared.mem_alternatives_within_iff placed, and_congr_right_iff, SortedSet.mem_singleton]
  intro fruitful
  have head := prepared.whole.heads_known production fruitful.1
  exact ⟨prepared.whole.eq_of_same_index head member, congrArg Symbol.index⟩

theorem Prepared.useful_arc_iff {start finish : Int} :
    generator.usefulGraph.Arc start finish ↔ ∃ origin target,
      generator.grammar.LeadsFruitfully origin target ∧ origin.index = start ∧
        target.index = finish := by
  unfold RuleGraph.Arc usefulGraph Grammar.LeadsFruitfully
  simp only [List.mem_flatMap, prepared.mem_useful_productions_iff, Production.arcs, List.mem_map,
    List.mem_filter, Symbol.isNonterminal, Bool.not_eq_true', Prod.mk.injEq]
  constructor
  · intro arc
    obtain ⟨production, fruitful, target, ⟨occurs, nonterminal⟩, first, last⟩ := arc
    exact ⟨_, target, ⟨production, fruitful, rfl, occurs, nonterminal⟩, first, last⟩
  · intro leads
    obtain ⟨_, target, ⟨production, fruitful, rfl, occurs, nonterminal⟩, first, last⟩ := leads
    exact ⟨production, fruitful, target, ⟨occurs, nonterminal⟩, first, last⟩

theorem Prepared.useful_node_iff (member : symbol ∈ generator.grammar.nonterminals) :
    symbol.index ∈ generator.usefulGraph.nodes ↔ generator.grammar.DerivesTokens symbol := by
  change symbol.index ∈ generator.productive ↔ _
  rw [prepared.productive, Grammar.mem_productive_iff prepared.whole member]

theorem Prepared.useful_arcs_inside (start finish : Int)
    (arc : generator.usefulGraph.Arc start finish) : finish ∈ generator.usefulGraph.nodes := by
  obtain ⟨origin, target, leads, rfl, rfl⟩ := prepared.useful_arc_iff.1 arc
  exact (prepared.useful_node_iff (leads.known prepared.whole).2).2 leads.derives.2

theorem Prepared.useful_path
    (path : Relation.ReflTransGen generator.grammar.LeadsFruitfully origin target) :
    generator.usefulGraph.Leads origin.index target.index :=
  path.lift Symbol.index fun _ _ leads => prepared.useful_arc_iff.2 ⟨_, _, leads, rfl, rfl⟩

theorem Prepared.useful_led {finish : Int} (member : origin ∈ generator.grammar.nonterminals)
    (path : generator.usefulGraph.Leads origin.index finish) :
    ∃ target ∈ generator.grammar.nonterminals, target.index = finish ∧
      Relation.ReflTransGen generator.grammar.LeadsFruitfully origin target := by
  induction path with
  | refl => exact ⟨origin, member, rfl, .refl⟩
  | tail _ arc ih =>
      obtain ⟨middle, among, rfl, earlier⟩ := ih
      obtain ⟨start, target, leads, same, rfl⟩ := prepared.useful_arc_iff.1 arc
      have known := leads.known prepared.whole
      obtain rfl := prepared.whole.eq_of_same_index known.1 among same
      exact ⟨target, known.2, rfl, earlier.tail leads⟩

theorem Prepared.recurs_iff (member : symbol ∈ generator.grammar.nonterminals) :
    generator.usefulGraph.Recurs symbol.index ↔ generator.grammar.Recurs symbol := by
  constructor
  · intro recurs
    obtain ⟨_, path, round⟩ := recurs
    obtain ⟨knot, known, rfl, led⟩ := prepared.useful_led member path
    obtain ⟨_, later, arc⟩ := Relation.TransGen.tail'_iff.1 round
    obtain ⟨middle, among, rfl, behind⟩ := prepared.useful_led known later
    obtain ⟨start, finish, leads, first, last⟩ := prepared.useful_arc_iff.1 arc
    obtain ⟨startMember, finishMember⟩ := leads.known prepared.whole
    obtain rfl := prepared.whole.eq_of_same_index startMember among first
    obtain rfl := prepared.whole.eq_of_same_index finishMember known last
    exact ⟨finish, known, led, .tail' behind leads⟩
  · intro recurs
    obtain ⟨knot, _, path, round⟩ := recurs
    refine ⟨knot.index, prepared.useful_path path, ?_⟩
    exact round.lift Symbol.index fun _ _ leads => prepared.useful_arc_iff.2 ⟨_, _, leads, rfl, rfl⟩

theorem Prepared.mem_unbounded_iff (member : symbol ∈ generator.grammar.nonterminals)
    (derives : generator.grammar.DerivesTokens symbol) :
    symbol.index ∈ generator.outlook.unbounded ↔ generator.grammar.Recurs symbol := by
  rw [← prepared.recurs_iff member]
  exact RuleGraph.mem_endless_iff prepared.useful_arcs_inside
    ((prepared.useful_node_iff member).2 derives)

end Graph

section Heights

variable (prepared : generator.Prepared)

include prepared

theorem Prepared.span_decreases (straight : ¬ generator.grammar.Recurs origin)
    (leads : generator.grammar.LeadsFruitfully origin target) :
    generator.usefulGraph.span target.index < generator.usefulGraph.span origin.index := by
  apply RuleGraph.span_decreases_of_straight
  · rwa [prepared.recurs_iff (leads.known prepared.whole).1]
  · exact prepared.useful_arc_iff.2 ⟨origin, target, leads, rfl, rfl⟩

theorem Prepared.span_le (member : symbol ∈ generator.grammar.nonterminals) :
    generator.usefulGraph.span symbol.index ≤ generator.grammar.nonterminals.length := by
  have covered : ∀ node ∈ generator.usefulGraph.closure (SortedSet.singleton symbol.index),
      node ∈ generator.grammar.nonterminals.map (·.index) := by
    intro node found
    obtain ⟨target, among, rfl, _⟩ :=
      prepared.useful_led member (RuleGraph.mem_closure_of_node.1 found)
    exact List.mem_map_of_mem among
  have bounded := SortedSet.size_le_of_covered covered
  rwa [List.length_map] at bounded

/-- On the way down a tree without recursion there are fewer and fewer nonterminals in reach. -/
theorem Prepared.depth_le_span {tree : DerivationTree}
    (complete : Complete generator.grammar tree) (nonterminal : tree.root.isTerminal = false)
    (straight : ¬ generator.grammar.Recurs tree.root) :
    tree.depth ≤ generator.usefulGraph.span tree.root.index := by
  induction complete with
  | @token symbol terminal =>
      change symbol.isTerminal = false at nonterminal
      rw [terminal] at nonterminal
      cases nonterminal
  | @expansion production children listed kind body each ih =>
      change ¬ generator.grammar.Recurs production.lhs at straight
      change _ ≤ generator.usefulGraph.span production.lhs.index
      have forest : Forest generator.grammar production.rhs children := ⟨body, each⟩
      have fruitful := Grammar.Fruitful.of_forest prepared.whole listed forest
      have own : 0 < generator.usefulGraph.span production.lhs.index :=
        List.length_pos_of_mem (RuleGraph.mem_closure_of_node.2 .refl)
      have below : ∀ child ∈ children,
          child.depth < generator.usefulGraph.span production.lhs.index := by
        intro child among
        cases kind : child.root.isTerminal with
        | true =>
            rw [(each child among).of_terminal_root kind, depth_leaf kind]
            exact own
        | false =>
            have occurs := forest.root_mem among
            have low := ih child among kind (fruitful.part_straight straight occurs kind)
            exact low.trans_lt (prepared.span_decreases straight
              ⟨production, fruitful, rfl, occurs, kind⟩)
      rw [depth_node kind]
      have shallow := depth_all_le_iff.2 fun child among => Nat.le_sub_one_of_lt (below child among)
      omega

end Heights

end Generator

end GrammarKit
