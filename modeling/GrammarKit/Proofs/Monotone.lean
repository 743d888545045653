import GrammarKit.Proofs.Follow.Exact
import GrammarKit.Proofs.Generator.Cheapest
import GrammarKit.Proofs.Productive
import GrammarKit.Proofs.Reachable
import Mathlib.Data.List.Forall2

/-!
# More productions yield more

The passes of an analysis visit the productions in order, and what they find on the way depends on
it. What they settle on does not: each table says what can be derived, and a derivation is one of
any grammar that has its productions. So a grammar with more productions has larger sets and lower
costs, and the order and repetition of productions change neither. The order has its say only in
whether some sum overflows while the costs are found.
-/

namespace GrammarKit

set_option autoImplicit false

open DerivationTree

section Entries

variable {α β : Type}

/-- Wherever there is a value, the other entry has one that is at most as high. -/
def NoLess (atMost : α → α → Prop) (entry other : Option α) : Prop :=
  ∀ bound, entry = some bound → ∃ value, other = some value ∧ atMost value bound

theorem NoLess.antisymm {atMost : α → α → Prop}
    (agree : ∀ left right, atMost left right → atMost right left → left = right)
    {entry other : Option α} (first : NoLess atMost entry other)
    (second : NoLess atMost other entry) : entry = other := by
  cases entry with
  | none =>
      cases other with
      | none => rfl
      | some bound =>
          obtain ⟨_, absent, _⟩ := second bound rfl
          cases absent
  | some bound =>
      obtain ⟨value, rfl, low⟩ := first bound rfl
      obtain ⟨again, same, high⟩ := second value rfl
      obtain rfl := Option.some.inj same
      exact congrArg some (agree _ _ high low)

theorem eq_of_both_related {related : α → α → Prop}
    (agree : ∀ left right, related left right → related right left → left = right)
    {left right : List α} (first : List.Forall₂ related left right)
    (second : List.Forall₂ related right left) : left = right := by
  induction first with
  | nil => rfl
  | cons head _ ih =>
      cases second with
      | cons back rest => rw [agree _ _ head back, ih rest]

theorem Grammar.WellFormed.entries_related {grammar : Grammar} (whole : grammar.WellFormed)
    {related : α → β → Prop} {left : List α} {right : List β}
    (leftSize : left.length = grammar.nonterminals.length)
    (rightSize : right.length = grammar.nonterminals.length)
    (each : ∀ symbol ∈ grammar.nonterminals, ∀ entry other,
      item? left symbol.index = some entry → item? right symbol.index = some other →
        related entry other) : List.Forall₂ related left right := by
  rw [List.forall₂_iff_get]
  refine ⟨leftSize.trans rightSize.symm, ?_⟩
  intro place leftInside rightInside
  have inside : place < grammar.nonterminals.length := leftSize ▸ leftInside
  have index := (numbered_table_item whole.nonterminals_numbered inside).2
  apply each _ (List.getElem_mem inside)
  · rw [index]
    exact item_of_nat leftInside
  · rw [index]
    exact item_of_nat rightInside

end Entries

/-- The other tree is complete and has the same root and the same cost, whatever tokens cost. -/
def DerivationTree.Alike (grammar : Grammar) (tree other : DerivationTree) : Prop :=
  Complete grammar other ∧ other.root = tree.root ∧ ∀ costs, other.cost costs = tree.cost costs

theorem DerivationTree.trees_alike {grammar : Grammar} {trees : List DerivationTree}
    (each : ∀ tree ∈ trees, ∃ other, Alike grammar tree other) :
    ∃ others, others.map root = trees.map root ∧ (∀ other ∈ others, Complete grammar other) ∧
      ∀ costs, totalCost costs others = totalCost costs trees := by
  induction trees with
  | nil => exact ⟨[], rfl, by simp, fun _ => rfl⟩
  | cons tree rest ih =>
      obtain ⟨other, complete, start, cost⟩ := each tree (by simp)
      obtain ⟨others, roots, completes, total⟩ :=
        ih fun later member => each later (by simp [member])
      refine ⟨other :: others, by simp [start, roots], by simpa using ⟨complete, completes⟩, ?_⟩
      intro costs
      change (other.cost costs).add (totalCost costs others) = _
      rw [cost, total]
      rfl

namespace Grammar

/-- Both grammars have the same symbols, and each production of the first one stands in the second
one too. Numbers, precedences, order and repetition do not count. -/
structure ContainedIn (small large : Grammar) : Prop where
  terminals : small.terminals = large.terminals
  nonterminals : small.nonterminals = large.nonterminals
  start : small.start = large.start
  augmentedStart : small.augmentedStart = large.augmentedStart
  productions : ∀ production ∈ small.productions, ∃ other ∈ large.productions,
    other.lhs = production.lhs ∧ other.rhs = production.rhs

/-- The fewest expansions, unless the sums that count them overflow. -/
def countExpansions (grammar : Grammar) : Except Fault (List (Option Nat)) := do
  grammar.checkExpansions
  return grammar.expansions

/-- The least costs, unless a token has a negative cost or the sums overflow. -/
def findCosts (grammar : Grammar) (costs : TokenCosts) : Except Fault CostTable := do
  costs.checkTerminals grammar
  grammar.checkCosts costs
  return CostTable.ofGrammar grammar costs

theorem tables_of_generator {grammar : Grammar} {options : GeneratorOptions}
    {firsts : Option FirstTable} {generator : Generator}
    (made : (Generator.ofGrammar grammar options firsts).outcome = .ok generator) :
    grammar.countExpansions = .ok generator.expansions ∧
      grammar.findCosts options.tokenCosts = .ok generator.costs := by
  obtain ⟨admitted, table, rfl⟩ := Generator.of_grammar_eq_ok made
  unfold countExpansions findCosts
  rw [admitted.expansions, admitted.tokenCosts, admitted.costs]
  exact ⟨rfl, rfl⟩

namespace ContainedIn

variable {small large : Grammar} (contained : small.ContainedIn large)

include contained

theorem eof : small.eof = large.eof := by
  have last := congrArg List.getLast? contained.terminals
  simpa [Grammar.terminals] using last

section Derivations

theorem step {form next : List Symbol} (step : small.Step form next) : large.Step form next := by
  cases step with
  | expand member before after =>
      obtain ⟨other, among, head, body⟩ := contained.productions _ member
      rw [← head, ← body]
      exact .expand among before after

theorem derives {form final : List Symbol} (derivation : small.Derives form final) :
    large.Derives form final := by
  induction derivation with
  | refl => exact .refl
  | tail _ last ih => exact .tail ih (contained.step last)

theorem begins {form : List Symbol} {terminal : Symbol} (begins : small.Begins form terminal) :
    large.Begins form terminal := by
  obtain ⟨rest, derivation⟩ := begins
  exact ⟨rest, contained.derives derivation⟩

theorem follows {symbol terminal : Symbol} (follows : small.Follows symbol terminal) :
    large.Follows symbol terminal := by
  rcases follows with ⟨origin, member, before, after, derivation⟩ | ⟨rfl, before, derivation⟩
  · rw [contained.nonterminals] at member
    exact Or.inl ⟨origin, member, before, after, contained.derives derivation⟩
  · have ending := contained.derives derivation
    rw [contained.start] at ending
    exact Or.inr ⟨contained.eof, before, ending⟩

theorem derives_tokens {symbol : Symbol} (derives : small.DerivesTokens symbol) :
    large.DerivesTokens symbol := by
  obtain ⟨tokens, terminals, derivation⟩ := derives
  exact ⟨tokens, terminals, contained.derives derivation⟩

theorem reaches {origin symbol : Symbol} (reached : small.Reaches origin symbol) :
    large.Reaches origin symbol := by
  obtain ⟨before, after, derivation⟩ := reached
  exact ⟨before, after, contained.derives derivation⟩

/-- A tree of the larger grammar with the same shape: its productions may bear other numbers. -/
theorem tree {tree : DerivationTree} (complete : Complete small tree) :
    ∃ other, Alike large tree other := by
  induction complete with
  | @token symbol terminal => exact ⟨leaf symbol, .token terminal, rfl, fun _ => rfl⟩
  | @expansion production children member nonterminal body _ ih =>
      obtain ⟨other, among, head, same⟩ := contained.productions production member
      obtain ⟨trees, roots, each, total⟩ := trees_alike ih
      rw [← head] at nonterminal
      refine ⟨.node ⟨other.lhs, some other⟩ trees, ?_, head, ?_⟩
      · exact .expansion among nonterminal (by rw [roots, body, same]) each
      · intro costs
        rw [cost_node nonterminal, total, cost_node (head ▸ nonterminal)]

end Derivations

end ContainedIn

/-- Every member of the first set is one of the second. -/
def SetWithin (left right : IndexSet) : Prop := ∀ index ∈ left, index ∈ right

theorem SetWithin.antisymm {left right : IndexSet} (first : SetWithin left right)
    (second : SetWithin right left) : left = right :=
  SortedSet.eq_of_same_members fun index => ⟨first index, second index⟩

theorem within_antisymm {left right : First} (first : left.Within right)
    (second : right.Within left) : left = right := by
  obtain ⟨leftTokens, leftNullable⟩ := left
  obtain ⟨rightTokens, rightNullable⟩ := right
  rw [First.mk.injEq]
  exact ⟨SetWithin.antisymm first.tokens second.tokens,
    Bool.eq_iff_iff.2 ⟨first.nullable, second.nullable⟩⟩

section Members

variable {grammar : Grammar}

theorem productive_members (whole : grammar.WellFormed) {index : Int} :
    index ∈ grammar.productive ↔
      ∃ symbol ∈ grammar.nonterminals, symbol.index = index ∧ grammar.DerivesTokens symbol := by
  constructor
  · exact Productive.settled_sound whole index
  · intro derived
    obtain ⟨symbol, member, rfl, derives⟩ := derived
    exact (mem_productive_iff whole member).2 derives

theorem reachable_members (whole : grammar.WellFormed) :
    ∃ reached, grammar.reachable = .ok reached ∧ ∀ index, index ∈ reached ↔
      ∃ symbol ∈ grammar.nonterminals, symbol.index = index ∧
        grammar.Reaches grammar.augmentedStart symbol := by
  have start := whole.augmented_start_known
  have node : grammar.augmentedStart.index ∈ grammar.ruleGraph.nodes :=
    SortedSet.mem_of_list.2 (List.mem_append_left _ (List.mem_map_of_mem start))
  refine ⟨_, if_pos node, ?_⟩
  intro index
  rw [RuleGraph.mem_closure_iff]
  constructor
  · intro led
    obtain ⟨origin, among, path⟩ := led
    obtain rfl := SortedSet.mem_singleton.1 among
    exact led_to_reached whole start path
  · intro reached
    obtain ⟨symbol, member, rfl, path⟩ := reached
    exact ⟨_, SortedSet.mem_singleton.2 rfl, (leads_iff whole start member).2 path⟩

end Members

namespace ContainedIn

variable {small large : Grammar} (contained : small.ContainedIn large)
  (smallWhole : small.WellFormed) (largeWhole : large.WellFormed)

include contained smallWhole largeWhole

section Sets

theorem first_sets :
    List.Forall₂ First.Within (FirstTable.settled small).1.entries
      (FirstTable.settled large).1.entries := by
  have exact := FirstTable.settled_exact smallWhole
  have largeExact := FirstTable.settled_exact largeWhole
  apply smallWhole.entries_related exact.size (contained.nonterminals ▸ largeExact.size)
  intro symbol member entry other read again
  have kind := smallWhole.nonterminal_kind member
  have known : small.Knows symbol := Or.inr member
  have largeKnown : large.Knows symbol := Or.inr (contained.nonterminals ▸ member)
  rw [← FirstTable.entry_of_item kind read, ← FirstTable.entry_of_item kind again]
  constructor
  · intro index found
    obtain ⟨terminal, among, rfl⟩ := exact.entry_tokens_known known index found
    have begins := (exact.entry_begins_iff known terminal among).1 found
    exact (largeExact.entry_begins_iff largeKnown terminal (contained.terminals ▸ among)).2
      (contained.begins begins)
  · intro vanishes
    exact (largeExact.entry_vanishes_iff largeKnown).2
      (contained.derives ((exact.entry_vanishes_iff known).1 vanishes))

omit largeWhole in
theorem follow_sets {left right : FollowTable} (exact : left.Exact small)
    (largeExact : right.Exact large) : List.Forall₂ SetWithin left.entries right.entries := by
  apply smallWhole.entries_related exact.size (contained.nonterminals ▸ largeExact.size)
  intro symbol member entry other read again
  have tokens : left.tokensOf symbol.index = entry := congrArg (Option.getD · ∅) read
  have largeTokens : right.tokensOf symbol.index = other := congrArg (Option.getD · ∅) again
  rw [← tokens, ← largeTokens]
  intro index found
  obtain ⟨terminal, among, rfl⟩ := exact.tokens_known symbol member index found
  have follows := (exact.follows_iff symbol member terminal among).1 found
  exact (largeExact.follows_iff symbol (contained.nonterminals ▸ member) terminal
    (contained.terminals ▸ among)).2 (contained.follows follows)

theorem productive_set : SetWithin small.productive large.productive := by
  intro index found
  obtain ⟨symbol, member, same, derives⟩ := (productive_members smallWhole).1 found
  exact (productive_members largeWhole).2
    ⟨symbol, contained.nonterminals ▸ member, same, contained.derives_tokens derives⟩

theorem reachable_set {left right : IndexSet} (found : small.reachable = .ok left)
    (largeFound : large.reachable = .ok right) : SetWithin left right := by
  obtain ⟨reached, answer, members⟩ := reachable_members smallWhole
  obtain ⟨largeReached, largeAnswer, largeMembers⟩ := reachable_members largeWhole
  obtain rfl := Except.ok.inj (answer.symm.trans found)
  obtain rfl := Except.ok.inj (largeAnswer.symm.trans largeFound)
  intro index inside
  obtain ⟨symbol, member, same, path⟩ := (members index).1 inside
  have start := contained.augmentedStart ▸ contained.reaches path
  exact (largeMembers index).2 ⟨symbol, contained.nonterminals ▸ member, same, start⟩

end Sets

section Costs

variable {costs : TokenCosts}

omit smallWhole largeWhole in
theorem signed (signed : costs.Signed small) : costs.Signed large := by
  intro terminal member
  exact signed terminal (contained.terminals ▸ member)

/-- A cheapest tree has one like it in the larger grammar, and the entry there covers that one. -/
theorem cost_entry (signed : costs.Signed small) {symbol : Symbol}
    (member : symbol ∈ small.nonterminals) :
    NoLess Cost.AtMost ((CostTable.ofGrammar small costs).costAt symbol.index)
      ((CostTable.ofGrammar large costs).costAt symbol.index) := by
  intro bound known
  obtain ⟨tree, complete, rfl, rfl⟩ :=
    (CostTable.settled_sound smallWhole).earned symbol member bound known
  obtain ⟨other, largeComplete, start, cost⟩ := contained.tree complete
  have largeMember : other.root ∈ large.nonterminals := start ▸ contained.nonterminals ▸ member
  have covered := CostTable.settled_covers largeWhole (contained.signed signed) largeComplete
    largeMember
  unfold CostTable.Covers at covered
  rw [start, cost, CostTable.of_symbol_nonterminal (smallWhole.nonterminal_kind member)] at covered
  exact covered

theorem cost_tables (signed : costs.Signed small) :
    List.Forall₂ (NoLess Cost.AtMost) (CostTable.ofGrammar small costs).entries
      (CostTable.ofGrammar large costs).entries := by
  have size : (CostTable.ofGrammar small costs).entries.length = small.nonterminals.length :=
    (CostTable.settled_sound smallWhole).size
  have largeSize : (CostTable.ofGrammar large costs).entries.length = large.nonterminals.length :=
    (CostTable.settled_sound largeWhole).size
  apply smallWhole.entries_related size (contained.nonterminals ▸ largeSize)
  intro symbol member entry other read again
  have found := contained.cost_entry smallWhole largeWhole signed member
  unfold CostTable.costAt at found
  rw [read, again] at found
  exact found

theorem expansion_tables :
    List.Forall₂ (NoLess (· ≤ ·)) small.expansions large.expansions := by
  have size : small.expansions.length = small.nonterminals.length :=
    (List.length_map _).trans (CostTable.settled_sound smallWhole).size
  have largeSize : large.expansions.length = large.nonterminals.length :=
    (List.length_map _).trans (CostTable.settled_sound largeWhole).size
  apply smallWhole.entries_related size (contained.nonterminals ▸ largeSize)
  intro symbol member entry other read again bound known
  have found : (item? small.expansions symbol.index).join = some bound := by
    rw [read]
    exact known
  obtain ⟨⟨tree, complete, rfl, rfl⟩, _⟩ := least_of_expansions_entry smallWhole member found
  obtain ⟨largeTree, largeComplete, start, cost⟩ := contained.tree complete
  have largeMember : tree.root ∈ large.nonterminals := contained.nonterminals ▸ member
  have derives := (derives_tokens_iff largeWhole).2 ⟨largeTree, largeComplete, start⟩
  obtain ⟨least, entered⟩ := expansions_entry_of_derives largeWhole largeMember derives
  have lowest := (least_of_expansions_entry largeWhole largeMember entered).2 largeTree
    largeComplete start
  rw [again] at entered
  have same : largeTree.expansionCount = tree.expansionCount :=
    congrArg Cost.expansions (cost .free)
  exact ⟨least, entered, same ▸ lowest⟩

end Costs

end ContainedIn

/-- Every set of the first grammar lies in that of the second one, and wherever both have tables of
expansions or costs, no entry of the first one is lower. -/
structure YieldsNoMore (small large : Grammar) : Prop where
  firsts : ∃ left right, (FirstTable.ofGrammar small).outcome = .ok left ∧
    (FirstTable.ofGrammar large).outcome = .ok right ∧
    List.Forall₂ First.Within left.entries right.entries
  follows : ∃ left right, (FollowTable.ofGrammar small).outcome = .ok left ∧
    (FollowTable.ofGrammar large).outcome = .ok right ∧
    List.Forall₂ SetWithin left.entries right.entries
  productive : SetWithin small.productive large.productive
  reachable : ∃ left right, small.reachable = .ok left ∧ large.reachable = .ok right ∧
    SetWithin left right
  expansions : ∀ left right, small.countExpansions = .ok left → large.countExpansions = .ok right →
    List.Forall₂ (NoLess (· ≤ ·)) left right
  costs : ∀ costs : TokenCosts, costs.Signed small → ∀ left right,
    small.findCosts costs = .ok left → large.findCosts costs = .ok right →
      List.Forall₂ (NoLess Cost.AtMost) left.entries right.entries

/-- The analyses come to the same, and so do expansions and costs wherever both have tables. -/
structure SettlesLike (left right : Grammar) : Prop where
  firsts : (FirstTable.ofGrammar left).outcome = (FirstTable.ofGrammar right).outcome
  follows : (FollowTable.ofGrammar left).outcome = (FollowTable.ofGrammar right).outcome
  productive : left.productive = right.productive
  reachable : left.reachable = right.reachable
  expansions : ∀ own other, left.countExpansions = .ok own → right.countExpansions = .ok other →
    own = other
  costs : ∀ costs : TokenCosts, costs.Signed left → ∀ own other,
    left.findCosts costs = .ok own → right.findCosts costs = .ok other → own = other

/-- Tokens may be charged in any way, and only an overflow keeps expansions or costs from being
found. -/
structure SettlesUnlessOverflow (grammar : Grammar) : Prop where
  charges : ∀ charge : Symbol → Int, ∃ costs : TokenCosts,
    ∀ terminal ∈ grammar.terminals, costs.of terminal = charge terminal
  expansions : (∃ table, grammar.countExpansions = .ok table) ∨
    grammar.countExpansions = .error .numberTooLarge ∧ grammar.SumsOverflow .free Cost.zero
  costs : ∀ costs : TokenCosts, costs.Signed grammar → (∃ table, grammar.findCosts costs = .ok table) ∨
    grammar.findCosts costs = .error .numberTooLarge ∧ grammar.SumsOverflow costs ⟨0, 1⟩
  generators : ∀ options firsts generator,
    (Generator.ofGrammar grammar options firsts).outcome = .ok generator →
      grammar.countExpansions = .ok generator.expansions ∧
        grammar.findCosts options.tokenCosts = .ok generator.costs

section Settled

variable {grammar : Grammar}

theorem count_expansions_eq {table : List (Option Nat)}
    (counted : grammar.countExpansions = .ok table) : table = grammar.expansions := by
  obtain ⟨_, _, same⟩ := except_bind_eq_ok_iff.1 counted
  exact (Except.ok.inj same).symm

theorem find_costs_eq {costs : TokenCosts} {table : CostTable}
    (found : grammar.findCosts costs = .ok table) : table = CostTable.ofGrammar grammar costs := by
  obtain ⟨_, _, found⟩ := except_bind_eq_ok_iff.1 found
  obtain ⟨_, _, same⟩ := except_bind_eq_ok_iff.1 found
  exact (Except.ok.inj same).symm

theorem settles_unless_overflow (whole : grammar.WellFormed) : grammar.SettlesUnlessOverflow where
  charges := TokenCosts.charges_numbered whole
  expansions := by
    have sums : grammar.checkExpansions = .ok () ∨
        grammar.checkExpansions = .error .numberTooLarge ∧ grammar.SumsOverflow .free Cost.zero :=
      check_sums_cases whole (free_signed grammar) (Int.le_refl 0)
    unfold countExpansions
    rcases sums with passed | ⟨failed, overflow⟩
    · rw [passed]
      exact Or.inl ⟨_, rfl⟩
    · rw [failed]
      exact Or.inr ⟨rfl, overflow⟩
  costs := by
    intro costs signed
    have sums : grammar.checkCosts costs = .ok () ∨
        grammar.checkCosts costs = .error .numberTooLarge ∧ grammar.SumsOverflow costs ⟨0, 1⟩ :=
      check_sums_cases whole signed (Int.le_refl 0)
    unfold findCosts
    rw [TokenCosts.check_terminals_iff.2 signed]
    rcases sums with passed | ⟨failed, overflow⟩
    · rw [passed]
      exact Or.inl ⟨_, rfl⟩
    · rw [failed]
      exact Or.inr ⟨rfl, overflow⟩
  generators := fun _ _ _ made => tables_of_generator made

end Settled

section Contained

variable {small large : Grammar} (smallWhole : small.WellFormed) (largeWhole : large.WellFormed)

include smallWhole largeWhole

theorem yields_no_more (contained : small.ContainedIn large) : small.YieldsNoMore large where
  firsts := ⟨_, _, FirstTable.of_grammar_outcome smallWhole,
    FirstTable.of_grammar_outcome largeWhole, contained.first_sets smallWhole largeWhole⟩
  follows := by
    obtain ⟨left, found, exact⟩ := FollowTable.of_grammar_outcome smallWhole
    obtain ⟨right, largeFound, largeExact⟩ := FollowTable.of_grammar_outcome largeWhole
    exact ⟨left, right, found, largeFound, contained.follow_sets smallWhole exact largeExact⟩
  productive := contained.productive_set smallWhole largeWhole
  reachable := by
    obtain ⟨left, found, _⟩ := reachable_exact smallWhole
    obtain ⟨right, largeFound, _⟩ := reachable_exact largeWhole
    exact ⟨left, right, found, largeFound,
      contained.reachable_set smallWhole largeWhole found largeFound⟩
  expansions := by
    intro left right counted largeCounted
    rw [count_expansions_eq counted, count_expansions_eq largeCounted]
    exact contained.expansion_tables smallWhole largeWhole
  costs := by
    intro costs signed left right found largeFound
    rw [find_costs_eq found, find_costs_eq largeFound]
    exact contained.cost_tables smallWhole largeWhole signed

theorem settles_like (contained : small.ContainedIn large) (back : large.ContainedIn small) :
    small.SettlesLike large where
  firsts := by
    have entries := eq_of_both_related (fun _ _ => within_antisymm)
      (contained.first_sets smallWhole largeWhole) (back.first_sets largeWhole smallWhole)
    rw [FirstTable.of_grammar_outcome smallWhole, FirstTable.of_grammar_outcome largeWhole]
    exact congrArg (fun entries => Except.ok (FirstTable.mk entries)) entries
  follows := by
    obtain ⟨left, found, exact⟩ := FollowTable.of_grammar_outcome smallWhole
    obtain ⟨right, largeFound, largeExact⟩ := FollowTable.of_grammar_outcome largeWhole
    have entries := eq_of_both_related (fun _ _ => SetWithin.antisymm)
      (contained.follow_sets smallWhole exact largeExact)
      (back.follow_sets largeWhole largeExact exact)
    rw [found, largeFound]
    exact congrArg (fun entries => Except.ok (FollowTable.mk entries)) entries
  productive := (contained.productive_set smallWhole largeWhole).antisymm
    (back.productive_set largeWhole smallWhole)
  reachable := by
    obtain ⟨left, found, _⟩ := reachable_exact smallWhole
    obtain ⟨right, largeFound, _⟩ := reachable_exact largeWhole
    have same := (contained.reachable_set smallWhole largeWhole found largeFound).antisymm
      (back.reachable_set largeWhole smallWhole largeFound found)
    rw [found, largeFound, same]
  expansions := by
    intro own other counted largeCounted
    rw [count_expansions_eq counted, count_expansions_eq largeCounted]
    exact eq_of_both_related (fun _ _ => NoLess.antisymm fun _ _ => Nat.le_antisymm)
      (contained.expansion_tables smallWhole largeWhole)
      (back.expansion_tables largeWhole smallWhole)
  costs := by
    intro costs signed own other found largeFound
    rw [find_costs_eq found, find_costs_eq largeFound]
    have entries := eq_of_both_related (fun _ _ => NoLess.antisymm fun _ _ => Cost.AtMost.antisymm)
      (contained.cost_tables smallWhole largeWhole signed)
      (back.cost_tables largeWhole smallWhole (contained.signed signed))
    exact congrArg CostTable.mk entries

/-- Productions that are added only add to the sets and only lower expansions and costs, in whatever
order the productions stand. -/
theorem analyses_are_monotone (contained : small.ContainedIn large) :
    small.YieldsNoMore large ∧ (large.ContainedIn small → small.SettlesLike large) ∧
      small.SettlesUnlessOverflow ∧ large.SettlesUnlessOverflow :=
  ⟨yields_no_more smallWhole largeWhole contained, settles_like smallWhole largeWhole contained,
    settles_unless_overflow smallWhole, settles_unless_overflow largeWhole⟩

end Contained

section Repetition

/-- Some letters `a` and then a `b`, by productions of this choice. -/
def repetition (leading : List Production) : Grammar where
  variant := .plain
  tokens := [⟨.terminal, 0, "a"⟩, ⟨.terminal, 1, "b"⟩]
  eof := ⟨.terminal, 2, "$"⟩
  nonterminals := [⟨.nonterminal, 0, "S"⟩, ⟨.nonterminal, 1, "S'"⟩]
  leading := leading
  startProduction := ⟨2, ⟨.nonterminal, 1, "S'"⟩,
    [⟨.nonterminal, 0, "S"⟩, ⟨.terminal, 2, "$"⟩], none⟩
  start := ⟨.nonterminal, 0, "S"⟩
  implicitRule := none
  precedences := ∅
  errorTexts := ∅

def baseFirst : Grammar := repetition [
  ⟨0, ⟨.nonterminal, 0, "S"⟩, [⟨.terminal, 1, "b"⟩], none⟩,
  ⟨1, ⟨.nonterminal, 0, "S"⟩, [⟨.terminal, 0, "a"⟩, ⟨.nonterminal, 0, "S"⟩], none⟩]

def recursionFirst : Grammar := repetition [
  ⟨0, ⟨.nonterminal, 0, "S"⟩, [⟨.terminal, 0, "a"⟩, ⟨.nonterminal, 0, "S"⟩], none⟩,
  ⟨1, ⟨.nonterminal, 0, "S"⟩, [⟨.terminal, 1, "b"⟩], none⟩]

theorem base_first_contained : baseFirst.ContainedIn recursionFirst :=
  ⟨rfl, rfl, rfl, rfl, by decide⟩

theorem recursion_first_contained : recursionFirst.ContainedIn baseFirst :=
  ⟨rfl, rfl, rfl, rfl, by decide⟩

theorem repetition_settles_alike :
    baseFirst.WellFormed ∧ recursionFirst.WellFormed ∧ baseFirst.ContainedIn recursionFirst ∧
      baseFirst.YieldsNoMore recursionFirst ∧ baseFirst.SettlesLike recursionFirst := by
  have whole : baseFirst.WellFormed := by decide
  have otherWhole : recursionFirst.WellFormed := by decide
  obtain ⟨less, alike, _⟩ := analyses_are_monotone whole otherWhole base_first_contained
  exact ⟨whole, otherWhole, base_first_contained, less, alike recursion_first_contained⟩

/-- With a letter that costs more than any double, costs are found only where the production without
the letter comes first. -/
theorem overflow_depends_on_order :
    baseFirst.WellFormed ∧ recursionFirst.WellFormed ∧ baseFirst.ContainedIn recursionFirst ∧
      recursionFirst.ContainedIn baseFirst ∧
      ∃ costs : TokenCosts, costs.Signed baseFirst ∧
        baseFirst.findCosts costs = .ok ⟨[some ⟨1, 1⟩, some ⟨2, 2⟩]⟩ ∧
        recursionFirst.findCosts costs = .error .numberTooLarge := by
  have natural : (0 : Int) ≤ doubleLimit := Int.natCast_nonneg doubleLimit
  refine ⟨by decide, by decide, base_first_contained, recursion_first_contained,
    (Generator.charging "a" doubleLimit).tokenCosts,
    (Generator.charging_in_order baseFirst "a" natural).tokenCosts, ?_, ?_⟩
  · decide +kernel
  · decide +kernel

end Repetition

end Grammar

end GrammarKit
