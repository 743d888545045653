import GrammarKit.Proofs.Generator.Steps

/-!
# Whole runs

A run is described without a bound on the height: each nonterminal is expanded, then come the trees
below it, and then the trees to its right. The bounded recursion comes to a tree exactly when there
is such a run and the tree is not too high. What a run takes from the accounts is known from its
trees, and while the slack lasts it bounds their expansions.
-/

namespace GrammarKit

set_option autoImplicit false

open DerivationTree

namespace DerivationTree

mutual

/-- The number of expansions on the longest way down. -/
def depth : DerivationTree → Nat
  | .node node children => if node.symbol.isTerminal then 0 else depthAll children + 1

def depthAll : List DerivationTree → Nat
  | [] => 0
  | tree :: rest => max (depth tree) (depthAll rest)

end

theorem depth_leaf {symbol : Symbol} (terminal : symbol.isTerminal) : (leaf symbol).depth = 0 := by
  simp [leaf, depth, terminal]

theorem depth_node {symbol : Symbol} {production : Option Production}
    {children : List DerivationTree} (nonterminal : symbol.isTerminal = false) :
    depth (.node ⟨symbol, production⟩ children) = depthAll children + 1 := by
  simp [depth, nonterminal]

theorem depth_all_le_iff {trees : List DerivationTree} {height : Nat} :
    depthAll trees ≤ height ↔ ∀ tree ∈ trees, tree.depth ≤ height := by
  induction trees with
  | nil => simp [depthAll]
  | cons tree rest ih => simp [depthAll, ih]

mutual

theorem depth_le_count (tree : DerivationTree) : tree.depth ≤ tree.expansionCount := by
  cases tree with
  | node node children =>
      have below := depth_all_le_count children
      unfold depth expansionCount
      split
      · exact Nat.zero_le _
      · omega

theorem depth_all_le_count (trees : List DerivationTree) :
    depthAll trees ≤ expansionCountAll trees := by
  cases trees with
  | nil => exact Nat.le_refl 0
  | cons tree rest =>
      have head := depth_le_count tree
      have tail := depth_all_le_count rest
      unfold depthAll expansionCountAll
      omega

end

theorem expansion_count_leaf {symbol : Symbol} (terminal : symbol.isTerminal) :
    (leaf symbol).expansionCount = 0 := by
  simp [leaf, expansionCount, expansionCountAll, terminal]

end DerivationTree

namespace Generator

variable {σ : Type} {generator : Generator} {picker : Picker σ}

/-- The trees grow one after the other, each from its root down. -/
inductive Grown (generator : Generator) (picker : Picker σ) :
    Progress σ → List DerivationTree → Progress σ → Prop where
  | nil (start : Progress σ) : Grown generator picker start [] start
  | token {start final : Progress σ} {symbol : Symbol} {rest : List DerivationTree}
      (terminal : symbol.isTerminal) (others : Grown generator picker start rest final) :
      Grown generator picker start (leaf symbol :: rest) final
  | expansion {start middle after final : Progress σ} {symbol : Symbol} {production : Production}
      {children rest : List DerivationTree} (nonterminal : symbol.isTerminal = false)
      (expanded : (generator.expand picker symbol).run start = (.ok production, middle))
      (body : children.map root = production.rhs)
      (below : Grown generator picker middle children after)
      (others : Grown generator picker after rest final) :
      Grown generator picker start (.node ⟨symbol, some production⟩ children :: rest) final

theorem Grown.cons_iff {start final : Progress σ} {tree : DerivationTree}
    {rest : List DerivationTree} :
    Grown generator picker start (tree :: rest) final ↔
      ∃ middle, Grown generator picker start [tree] middle ∧
        Grown generator picker middle rest final := by
  constructor
  · intro grown
    cases grown with
    | token terminal others => exact ⟨_, .token terminal (.nil _), others⟩
    | expansion nonterminal expanded body below others =>
        exact ⟨_, .expansion nonterminal expanded body below (.nil _), others⟩
  · intro runs
    rcases runs with ⟨middle, first, others⟩
    cases first with
    | token terminal nothing =>
        cases nothing
        exact .token terminal others
    | expansion nonterminal expanded body below nothing =>
        cases nothing
        exact .expansion nonterminal expanded body below others

theorem Grown.of_terminal {start final : Progress σ} {tree : DerivationTree}
    (terminal : tree.root.isTerminal) :
    Grown generator picker start [tree] final ↔ tree = leaf tree.root ∧ final = start := by
  constructor
  · intro grown
    cases grown with
    | token _ nothing =>
        cases nothing
        exact ⟨rfl, rfl⟩
    | @expansion _ _ _ _ symbol _ _ _ nonterminal _ _ _ _ =>
        change symbol.isTerminal = true at terminal
        rw [nonterminal] at terminal
        cases terminal
  · intro nothing
    rcases nothing with ⟨same, rfl⟩
    rw [same]
    exact .token terminal (.nil _)

theorem Grown.of_nonterminal {start final : Progress σ} {tree : DerivationTree}
    (nonterminal : tree.root.isTerminal = false) :
    Grown generator picker start [tree] final ↔
      ∃ production middle children, tree = .node ⟨tree.root, some production⟩ children ∧
        (generator.expand picker tree.root).run start = (.ok production, middle) ∧
        children.map root = production.rhs ∧ Grown generator picker middle children final := by
  constructor
  · intro grown
    cases grown with
    | @token _ _ symbol _ terminal _ =>
        change symbol.isTerminal = false at nonterminal
        rw [terminal] at nonterminal
        cases nonterminal
    | expansion _ expanded body below nothing =>
        cases nothing
        exact ⟨_, _, _, rfl, expanded, body, below⟩
  · intro node
    rcases node with ⟨production, middle, children, same, expanded, body, below⟩
    rw [same]
    exact .expansion nonterminal expanded body below (.nil _)

section Recursion

theorem grow_of_terminal {symbol : Symbol} (terminal : symbol.isTerminal) (height : Nat)
    (start : Progress σ) :
    (generator.grow picker height symbol).run start = (.ok (leaf symbol), start) := by
  cases height with
  | zero =>
      unfold grow
      rw [if_pos terminal]
      rfl
  | succ height =>
      unfold grow
      rw [if_pos terminal]
      rfl

theorem grow_of_nonterminal {symbol : Symbol} (nonterminal : symbol.isTerminal = false)
    (height : Nat) :
    generator.grow picker (height + 1) symbol = (do
      let production ← generator.expand picker symbol
      let children ← production.rhs.mapM (generator.grow picker height)
      return .node ⟨symbol, some production⟩ children : Growth σ DerivationTree) := by
  rw [grow, nonterminal]
  rfl

theorem grow_all_eq_ok_iff {height : Nat}
    (single : ∀ (symbol : Symbol) (start final : Progress σ) (tree : DerivationTree),
      (generator.grow picker height symbol).run start = (.ok tree, final) ↔
        Grown generator picker start [tree] final ∧ tree.root = symbol ∧ tree.depth ≤ height)
    {form : List Symbol} {start final : Progress σ} {trees : List DerivationTree} :
    (form.mapM (generator.grow picker height)).run start = (.ok trees, final) ↔
      Grown generator picker start trees final ∧ trees.map root = form ∧
        depthAll trees ≤ height := by
  induction form generalizing start trees with
  | nil =>
      rw [List.mapM_nil, List.map_eq_nil_iff]
      constructor
      · intro done
        cases done
        exact ⟨Grown.nil _, rfl, Nat.zero_le _⟩
      · intro run
        rcases run with ⟨grown, rfl, _⟩
        cases grown
        rfl
  | cons symbol rest ih =>
      rw [List.mapM_cons, growth_bind_eq_ok_iff]
      constructor
      · intro parts
        rcases parts with ⟨tree, middle, first, others⟩
        obtain ⟨later, after, tail, done⟩ := growth_bind_eq_ok_iff.1 others
        cases done
        obtain ⟨grown, rfl, low⟩ := (single symbol start middle tree).1 first
        obtain ⟨otherGrown, rfl, otherLow⟩ := ih.1 tail
        exact ⟨Grown.cons_iff.2 ⟨middle, grown, otherGrown⟩, rfl, max_le low otherLow⟩
      · intro run
        rcases run with ⟨grown, roots, low⟩
        obtain ⟨tree, later, rfl, start, others⟩ := List.map_eq_cons_iff.1 roots
        obtain ⟨middle, first, otherGrown⟩ := Grown.cons_iff.1 grown
        rcases max_le_iff.1 low with ⟨headLow, tailLow⟩
        refine ⟨tree, middle, (single symbol _ middle tree).2 ⟨first, start, headLow⟩, ?_⟩
        refine growth_bind_eq_ok_iff.2 ⟨later, final, ih.2 ⟨otherGrown, others, tailLow⟩, rfl⟩

theorem grow_terminal_iff {symbol : Symbol} (terminal : symbol.isTerminal) (height : Nat)
    {start final : Progress σ} {tree : DerivationTree} :
    (generator.grow picker height symbol).run start = (.ok tree, final) ↔
      Grown generator picker start [tree] final ∧ tree.root = symbol ∧ tree.depth ≤ height := by
  rw [grow_of_terminal terminal]
  constructor
  · intro done
    cases done
    exact ⟨.token terminal (.nil _), rfl, (depth_leaf terminal).le.trans (Nat.zero_le _)⟩
  · intro run
    rcases run with ⟨grown, rfl, _⟩
    obtain ⟨same, rfl⟩ := (Grown.of_terminal terminal).1 grown
    rw [← same]

theorem grow_eq_ok_iff {height : Nat} {symbol : Symbol} {start final : Progress σ}
    {tree : DerivationTree} :
    (generator.grow picker height symbol).run start = (.ok tree, final) ↔
      Grown generator picker start [tree] final ∧ tree.root = symbol ∧ tree.depth ≤ height := by
  induction height generalizing symbol start final tree with
  | zero =>
      cases kind : symbol.isTerminal with
      | true => exact grow_terminal_iff kind 0
      | false =>
          unfold grow
          rw [kind]
          constructor
          · intro done
            cases done
          · intro run
            rcases run with ⟨grown, rfl, low⟩
            obtain ⟨_, _, _, same, _⟩ := (Grown.of_nonterminal kind).1 grown
            rw [same, depth_node kind] at low
            omega
  | succ height ih =>
      cases kind : symbol.isTerminal with
      | true => exact grow_terminal_iff kind (height + 1)
      | false =>
          rw [grow_of_nonterminal kind, growth_bind_eq_ok_iff]
          constructor
          · intro parts
            rcases parts with ⟨production, middle, expanded, rest⟩
            obtain ⟨children, after, below, done⟩ := growth_bind_eq_ok_iff.1 rest
            cases done
            obtain ⟨grown, body, low⟩ := (grow_all_eq_ok_iff fun _ _ _ _ => ih).1 below
            refine ⟨.expansion kind expanded body grown (.nil _), rfl, ?_⟩
            rw [depth_node kind]
            omega
          · intro run
            rcases run with ⟨grown, rfl, low⟩
            obtain ⟨production, middle, children, same, expanded, body, below⟩ :=
              (Grown.of_nonterminal kind).1 grown
            rw [same, depth_node kind] at low
            have shallow : depthAll children ≤ height := by omega
            have done := (grow_all_eq_ok_iff fun _ _ _ _ => ih).2 ⟨below, body, shallow⟩
            refine ⟨production, middle, expanded, ?_⟩
            apply growth_bind_eq_ok_iff.2
            refine ⟨children, final, done, ?_⟩
            rw [← same]
            rfl

end Recursion

section Accounts

/-- What trees that need `total` expansions and have `count` of them take from the accounts. -/
structure Balanced (start final : Progress σ) (total count : Nat) : Prop where
  remaining : final.remaining = start.remaining - count
  reserved : final.reserved = start.reserved - total
  within : 0 ≤ start.slack → (count : Int) ≤ total + start.slack
  exact : start.slack < 0 → count = total

theorem Balanced.slack {start final : Progress σ} {total count : Nat}
    (balanced : Balanced start final total count) :
    final.slack = start.slack + total - count := by
  unfold Progress.slack
  rw [balanced.remaining, balanced.reserved]
  omega

theorem Balanced.nil (start : Progress σ) : Balanced start start 0 0 where
  remaining := by simp
  reserved := by simp
  within := by simp
  exact := fun _ => rfl

theorem Balanced.expansion {start middle after final : Progress σ}
    {least pending later below beside : Nat}
    (remaining : middle.remaining = start.remaining - 1)
    (reserved : middle.reserved = start.reserved - least + pending)
    (within : 0 ≤ start.slack → (pending : Int) + 1 ≤ start.slack + least)
    (exact : start.slack < 0 → pending + 1 = least) (spent : Balanced middle after pending below)
    (left : Balanced after final later beside) :
    Balanced start final (least + later) (1 + below + beside) := by
  have between := Progress.slack_spent remaining reserved
  have behind := spent.slack
  obtain ⟨spentRemaining, spentReserved, spentWithin, spentExact⟩ := spent
  obtain ⟨leftRemaining, leftReserved, leftWithin, leftExact⟩ := left
  constructor
  · push_cast
    omega
  · push_cast
    omega
  · intro enough
    have fitting := within enough
    have belowFits := spentWithin (by omega)
    have besideFits := leftWithin (by omega)
    push_cast
    omega
  · intro short
    have forced := exact short
    have belowForced := spentExact (by omega)
    have besideForced := leftExact (by omega)
    omega

theorem Prepared.grown_outcome (prepared : generator.Prepared) {start final : Progress σ}
    {trees : List DerivationTree} (grown : Grown generator picker start trees final)
    (known : generator.grammar.KnowsAll (trees.map root)) {total : Nat}
    (needed : generator.needAll (trees.map root) = some total) :
    Forest generator.grammar (trees.map root) trees ∧
      Balanced start final total (expansionCountAll trees) := by
  induction grown generalizing total with
  | nil start =>
      cases needed
      exact ⟨Forest.nil, Balanced.nil start⟩
  | @token start final symbol rest terminal _ ih =>
      obtain ⟨first, later, headNeed, restNeed, rfl⟩ := need_all_cons_iff.1 needed
      change generator.need symbol = some first at headNeed
      rw [need_of_terminal terminal] at headNeed
      cases headNeed
      rcases ih known.tail restNeed with ⟨forest, balanced⟩
      refine ⟨Forest.cons (.token terminal) forest, ?_⟩
      rw [expansionCountAll, expansion_count_leaf terminal]
      simpa using balanced
  | @expansion start middle after final symbol production children rest nonterminal expanded body
      _ _ belowIh othersIh =>
      obtain ⟨least, later, headNeed, restNeed, rfl⟩ := need_all_cons_iff.1 needed
      change generator.need symbol = some least at headNeed
      have member := prepared.whole.nonterminal_known (known symbol List.mem_cons_self) nonterminal
      obtain ⟨listed, pending, waiting, remaining, reserved, within, exact⟩ :=
        prepared.expand_accounts member headNeed expanded
      obtain ⟨applied, rfl, _⟩ := (prepared.mem_alternatives_iff member).1 listed
      obtain ⟨bodyKnown, bodyNeed⟩ := prepared.children_need applied body waiting
      rcases belowIh bodyKnown bodyNeed with ⟨below, spent⟩
      rcases othersIh known.tail restNeed with ⟨others, left⟩
      rw [body] at below
      refine ⟨Forest.cons (below.expansion prepared.whole applied) others, ?_⟩
      rw [expansionCountAll, expansion_count_node nonterminal]
      exact Balanced.expansion remaining reserved within exact spent left

theorem Prepared.grown_single (prepared : generator.Prepared) {start final : Progress σ}
    {tree : DerivationTree} (grown : Grown generator picker start [tree] final)
    (known : generator.grammar.Knows tree.root) {least : Nat}
    (needed : generator.need tree.root = some least) :
    Complete generator.grammar tree ∧ Balanced start final least tree.expansionCount := by
  rcases prepared.grown_outcome grown (.singleton known) (need_all_single needed) with
    ⟨forest, balanced⟩
  refine ⟨forest.complete tree List.mem_cons_self, ?_⟩
  simpa [expansionCountAll] using balanced

/-- A tree takes at least what its root needs, so that the slack never grows. -/
theorem Prepared.slack_after (prepared : generator.Prepared) {symbol : Symbol}
    (known : generator.grammar.Knows symbol) {least : Nat}
    (needed : generator.need symbol = some least) {height : Nat} {start final : Progress σ}
    {tree : DerivationTree}
    (done : (generator.grow picker height symbol).run start = (.ok tree, final)) :
    final.slack ≤ start.slack := by
  obtain ⟨grown, rfl, _⟩ := grow_eq_ok_iff.1 done
  rcases prepared.grown_single grown known needed with ⟨complete, balanced⟩
  have low := (prepared.need_least known needed).2 tree complete rfl
  have after := balanced.slack
  omega

end Accounts

section Trees

theorem start_slack {symbol : Symbol} {least : Nat} (needed : generator.need symbol = some least)
    (source : σ) : (generator.start symbol source).slack = generator.maxExpansions - least := by
  rw [start, needed]
  rfl

variable (prepared : generator.Prepared) {symbol : Symbol}
  (member : symbol ∈ generator.grammar.nonterminals)

include prepared member

theorem Prepared.tree_run (derives : generator.grammar.DerivesTokens symbol) (picker : Picker σ)
    (source : σ) :
    generator.tree picker symbol source =
      (generator.grow picker (generator.heightBound symbol) symbol).run
        (generator.start symbol source) := by
  unfold tree
  rw [(prepared.check_iff member).2 derives]

theorem Prepared.grown_of_tree {source : σ} {tree : DerivationTree} {final : Progress σ}
    (done : generator.tree picker symbol source = (.ok tree, final)) :
    generator.grammar.DerivesTokens symbol ∧
      Grown generator picker (generator.start symbol source) [tree] final ∧ tree.root = symbol := by
  have derives : generator.grammar.DerivesTokens symbol := by
    apply (prepared.check_iff member).1
    unfold Generator.tree at done
    split at done
    · cases done
    · assumption
  rw [prepared.tree_run member derives] at done
  obtain ⟨grown, same, _⟩ := grow_eq_ok_iff.1 done
  exact ⟨derives, grown, same⟩

/-- A run within the budget, or with the fewest expansions, is not cut off. -/
theorem Prepared.tree_of_grown {source : σ} {tree : DerivationTree} {final : Progress σ}
    (derives : generator.grammar.DerivesTokens symbol)
    (grown : Grown generator picker (generator.start symbol source) [tree] final)
    (same : tree.root = symbol)
    (low : tree.expansionCount ≤ max generator.maxExpansions ((generator.need symbol).getD 0)) :
    generator.tree picker symbol source = (.ok tree, final) := by
  rw [prepared.tree_run member derives]
  apply grow_eq_ok_iff.2
  refine ⟨grown, same, ?_⟩
  have shallow := depth_le_count tree
  unfold heightBound
  omega

theorem Prepared.tree_bounded {source : σ} {tree : DerivationTree} {final : Progress σ}
    (done : generator.tree picker symbol source = (.ok tree, final)) :
    Complete generator.grammar tree ∧ tree.root = symbol ∧
      ∃ least, generator.grammar.LeastExpansions symbol least ∧
        tree.expansionCount ≤ max generator.maxExpansions least := by
  obtain ⟨derives, grown, rfl⟩ := prepared.grown_of_tree member done
  obtain ⟨least, needed⟩ := prepared.need_of_derives (Or.inr member) derives
  rcases prepared.grown_single grown (Or.inr member) needed with ⟨complete, balanced⟩
  refine ⟨complete, rfl, least, prepared.need_least (Or.inr member) needed, ?_⟩
  have slack := start_slack needed source
  by_cases enough : 0 ≤ (generator.start tree.root source).slack
  · have := balanced.within enough
    omega
  · have := balanced.exact (not_le.1 enough)
    omega

end Trees

end Generator

end GrammarKit
