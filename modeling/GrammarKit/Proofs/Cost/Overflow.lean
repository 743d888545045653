import GrammarKit.Proofs.Cost.Least
import GrammarKit.Proofs.Outcomes
import GrammarKit.Sentence.Magnitude

/-!
# When sums of costs overflow

A sum overflows when a number beyond all doubles stands beside the unknown cost of a nonterminal.
The known costs are then those of trees in which no nonterminal stands below itself: a production
gets a nonterminal a new cost only if it is lower than before, and all trees below the nonterminal
that have the same root cost no less than that. There are finitely many such trees for each
nonterminal, so an overflow says something about the grammar and its costs, and nothing about the
number of passes.
-/

namespace GrammarKit

set_option autoImplicit false

open DerivationTree

namespace DerivationTree

variable {grammar : Grammar} {costs : TokenCosts} {part tree : DerivationTree}

/-- The trees inside a tree, which is one of them. -/
inductive Within : DerivationTree → DerivationTree → Prop where
  | self (tree : DerivationTree) : Within tree tree
  | under {part child : DerivationTree} {node : DerivationNode} {children : List DerivationTree}
      (member : child ∈ children) (inside : Within part child) : Within part (.node node children)

/-- No symbol stands below itself. -/
def Slim (tree : DerivationTree) : Prop :=
  ∀ part, Within part tree → ∀ child ∈ part.children, ∀ deep, Within deep child →
    deep.root ≠ part.root

theorem slim_leaf (symbol : Symbol) : (leaf symbol).Slim := by
  intro part inside child among
  cases inside with
  | self => cases among
  | under member _ => cases member

theorem slim_node {node : DerivationNode} {children : List DerivationTree}
    (each : ∀ child ∈ children, child.Slim)
    (apart : ∀ child ∈ children, ∀ deep, Within deep child → deep.root ≠ node.symbol) :
    Slim (.node node children) := by
  intro part inside
  cases inside with
  | self => exact apart
  | under member inside => exact each _ member part inside

theorem Complete.within (complete : Complete grammar tree) (whole : grammar.WellFormed)
    (known : grammar.Knows tree.root) (inside : Within part tree) : grammar.Knows part.root := by
  induction inside with
  | self => exact known
  | under among _ ih =>
      cases complete with
      | token _ => cases among
      | expansion member _ body each =>
          have forest : Forest grammar _ _ := ⟨body, each⟩
          exact ih (each _ among) (whole.body_known member _ (forest.root_mem among))

theorem Complete.within_at_most (complete : Complete grammar tree) (whole : grammar.WellFormed)
    (signed : costs.Signed grammar) (inside : Within part tree) :
    (part.cost costs).AtMost (tree.cost costs) := by
  induction inside with
  | self => exact .refl _
  | under among _ ih =>
      cases complete with
      | token _ => cases among
      | expansion member _ body each =>
          have less := signed.child_before whole member ⟨body, each⟩ among
          exact (ih (each _ among)).trans ((Cost.AtMost.total _ _).resolve_right less)

end DerivationTree

namespace Cost

theorem meet_eq_error {total amount : Option Cost} {fault : Fault}
    (failed : meet total amount = .error fault) : fault = .numberTooLarge ∧
      ((∃ cost, total = some cost ∧ amount = none ∧ cost.fits = false) ∨
        ∃ cost, total = none ∧ amount = some cost ∧ cost.fits = false) := by
  cases total with
  | none =>
      cases amount with
      | none => cases failed
      | some cost =>
          rw [meet_unknown_known] at failed
          split at failed
          · cases failed
          · cases failed
            exact ⟨rfl, Or.inr ⟨cost, rfl, rfl, by simpa using ‹¬ cost.fits = true›⟩⟩
  | some cost =>
      cases amount with
      | none =>
          rw [meet_known_unknown] at failed
          split at failed
          · cases failed
          · cases failed
            exact ⟨rfl, Or.inl ⟨cost, rfl, rfl, by simpa using ‹¬ cost.fits = true›⟩⟩
      | some other => cases failed

theorem add_beyond {start cost : Cost} (startSigned : 0 ≤ start.tokens)
    (signed : 0 ≤ cost.tokens) (beyond : cost.fits = false) : (start.add cost).fits = false := by
  simp only [fits, fitsDouble, Bool.and_eq_false_iff, decide_eq_false_iff_not, not_lt] at *
  rcases beyond with tokens | expansions
  · left
    have more : (start.add cost).tokens.natAbs = start.tokens.natAbs + cost.tokens.natAbs :=
      Int.natAbs_add_of_nonneg startSigned signed
    omega
  · right
    have more : (start.add cost).expansions = start.expansions + cost.expansions := rfl
    omega

end Cost

namespace CostTable

variable {grammar : Grammar} {costs : TokenCosts} {table : CostTable} {symbol : Symbol}

/-- A slim tree inside which no tree costs less than the entry of its root. -/
structure Frugal (grammar : Grammar) (costs : TokenCosts) (table : CostTable)
    (tree : DerivationTree) : Prop where
  complete : Complete grammar tree
  known : grammar.Knows tree.root
  slim : tree.Slim
  covered : ∀ part, Within part tree → Covers costs table part

theorem Frugal.after {old : CostTable} {tree : DerivationTree}
    (frugal : Frugal grammar costs old tree) (whole : grammar.WellFormed)
    (lowered : Lowers grammar old table) : Frugal grammar costs table tree where
  complete := frugal.complete
  known := frugal.known
  slim := frugal.slim
  covered := by
    intro part inside
    apply (frugal.covered part inside).after lowered whole
    exact frugal.complete.within whole frugal.known inside

theorem frugal_leaf (terminal : symbol.isTerminal) (known : grammar.Knows symbol) :
    Frugal grammar costs table (leaf symbol) where
  complete := .token terminal
  known := known
  slim := slim_leaf symbol
  covered := by
    intro part inside
    cases inside with
    | self =>
        have complete : Complete grammar (leaf symbol) := .token terminal
        exact .of_terminal complete terminal
    | under member _ => cases member

/-- Each known entry is the cost of a frugal tree. -/
structure Earned (grammar : Grammar) (costs : TokenCosts) (table : CostTable) : Prop where
  size : table.entries.length = grammar.nonterminals.length
  frugal : ∀ symbol ∈ grammar.nonterminals, ∀ cost, table.costAt symbol.index = some cost →
    ∃ tree, Frugal grammar costs table tree ∧ tree.root = symbol ∧ tree.cost costs = cost

theorem Earned.of_symbol (earned : Earned grammar costs table) (whole : grammar.WellFormed)
    (known : grammar.Knows symbol) {cost : Cost} (found : table.ofSymbol costs symbol = some cost) :
    ∃ tree, Frugal grammar costs table tree ∧ tree.root = symbol ∧ tree.cost costs = cost := by
  cases kind : symbol.isTerminal with
  | true =>
      rw [of_symbol_terminal kind, Option.some.injEq] at found
      exact ⟨leaf symbol, frugal_leaf kind known, rfl, (cost_leaf kind).trans found⟩
  | false =>
      rw [of_symbol_nonterminal kind] at found
      exact earned.frugal symbol (whole.nonterminal_known known kind) cost found

theorem Earned.of_sequence (earned : Earned grammar costs table) (whole : grammar.WellFormed)
    {form : List Symbol} (known : grammar.KnowsAll form) {cost : Cost}
    (found : table.ofSequence costs form = some cost) :
    ∃ trees, Forest grammar form trees ∧ totalCost costs trees = cost ∧
      ∀ tree ∈ trees, Frugal grammar costs table tree := by
  apply forest_of_entries _ found
  intro symbol member cost entry
  obtain ⟨tree, frugal, start, same⟩ := earned.of_symbol whole (known symbol member) entry
  exact ⟨tree, frugal.complete, start, same, frugal⟩

/-- A production that costs less than its head puts frugal trees under a slim root. -/
theorem frugal_expansion (whole : grammar.WellFormed) (signed : costs.Signed grammar)
    (size : table.entries.length = grammar.nonterminals.length) {production : Production}
    (member : production ∈ grammar.productions) {children : List DerivationTree}
    (forest : Forest grammar production.rhs children)
    (each : ∀ child ∈ children, Frugal grammar costs table child)
    (found : table.ofProduction costs production = some (Cost.add ⟨0, 1⟩ (totalCost costs children)))
    (improved : Cost.improves (table.ofProduction costs production)
      (table.costAt production.lhs.index)) :
    Frugal grammar costs (learn costs table production)
      (.node ⟨production.lhs, some production⟩ children) := by
  have head := whole.heads_known production member
  have nonterminal := whole.nonterminal_kind head
  have complete := forest.expansion whole member
  have lowered : Lowers grammar table (learn costs table production) :=
    (Lowers.refl size).after_learn whole head
  refine ⟨complete, Or.inr head, ?_, ?_⟩
  · apply slim_node fun child among => (each child among).slim
    -- A tree below with the same root would have covered the head with no more than this cost.
    rintro child among deep inside (same : deep.root = production.lhs)
    obtain ⟨old, entry, low⟩ := (each child among).covered deep inside
    rw [same, of_symbol_nonterminal nonterminal] at entry
    rw [found, entry, Cost.improves, Cost.before_iff] at improved
    apply improved
    have above := complete.within_at_most whole signed (.under among inside)
    rw [cost_node nonterminal] at above
    exact low.trans above
  · intro part inside
    cases inside with
    | self =>
        refine ⟨_, ?_, .refl _⟩
        change ofSymbol _ costs production.lhs = _
        rw [of_symbol_nonterminal nonterminal, cost_at_learn whole size head head, if_pos rfl,
          Cost.better, if_pos improved, found, cost_node nonterminal]
    | under among inside =>
        exact ((each _ among).after whole lowered).covered part inside

theorem Earned.after_learn (earned : Earned grammar costs table) (whole : grammar.WellFormed)
    (signed : costs.Signed grammar) {production : Production}
    (member : production ∈ grammar.productions) :
    Earned grammar costs (learn costs table production) := by
  have head := whole.heads_known production member
  have lowered : Lowers grammar table (learn costs table production) :=
    (Lowers.refl earned.size).after_learn whole head
  refine ⟨(learn_size production).trans earned.size, ?_⟩
  intro symbol among cost found
  have kept : table.costAt symbol.index = some cost → ∃ tree,
      Frugal grammar costs (learn costs table production) tree ∧ tree.root = symbol ∧
        tree.cost costs = cost := by
    intro entry
    obtain ⟨tree, frugal, start, same⟩ := earned.frugal symbol among cost entry
    exact ⟨tree, frugal.after whole lowered, start, same⟩
  rw [cost_at_learn whole earned.size head among] at found
  split at found
  · rename_i same
    subst same
    unfold Cost.better at found
    split at found
    · rename_i improved
      obtain ⟨first, second, single, body, rfl⟩ := Cost.sum_eq_some_iff.1 found
      obtain rfl := Option.some.inj single
      obtain ⟨trees, forest, rfl, each⟩ := earned.of_sequence whole (whole.body_known member) body
      have frugal := frugal_expansion whole signed earned.size member forest each found improved
      exact ⟨_, frugal, rfl, cost_node (whole.nonterminal_kind head)⟩
    · exact kept found
  · exact kept found

theorem blank_earned (whole : grammar.WellFormed) : Earned grammar costs (blank grammar) := by
  refine ⟨blank_size grammar, ?_⟩
  intro symbol member cost found
  rw [blank_cost_at whole member] at found
  cases found

section Gathering

theorem gather_eq (whole : grammar.WellFormed)
    (size : table.entries.length = grammar.nonterminals.length) (known : grammar.Knows symbol)
    (total : Option Cost) :
    table.gather costs total symbol = Cost.meet total (table.ofSymbol costs symbol) := by
  unfold gather ofSymbol costAt
  cases kind : symbol.isTerminal with
  | true => rfl
  | false =>
      obtain ⟨entry, _, read⟩ :=
        whole.item_found size (whole.nonterminal_known known kind)
      rw [read]
      rfl

theorem gathered_eq (whole : grammar.WellFormed)
    (size : table.entries.length = grammar.nonterminals.length) {form : List Symbol}
    (known : grammar.KnowsAll form) {total result : Option Cost}
    (gathered : form.foldlM (table.gather costs) total = .ok result) :
    result = Cost.sum total (table.ofSequence costs form) := by
  induction form generalizing total with
  | nil =>
      cases gathered
      exact (Cost.sum_zero _).symm
  | cons symbol rest ih =>
      rw [List.foldlM_cons] at gathered
      obtain ⟨next, first, later⟩ := except_bind_eq_ok_iff.1 gathered
      rw [gather_eq whole size (known symbol (by simp))] at first
      rw [ih known.tail later, Cost.meet_eq_sum first]
      exact Cost.sum_assoc _ _ _

end Gathering

end CostTable

namespace Grammar

variable {grammar : Grammar} {costs : TokenCosts} {start : Cost}

/-- Some piece of a right-hand side, though not all of it, has slim trees that cost more than any
double when the start is added. -/
def SumsOverflow (grammar : Grammar) (costs : TokenCosts) (start : Cost) : Prop :=
  ∃ production ∈ grammar.productions, ∃ piece, piece <:+: production.rhs ∧
    piece.length < production.rhs.length ∧
    ∃ trees, Forest grammar piece trees ∧ (∀ tree ∈ trees, tree.Slim) ∧
      (start.add (totalCost costs trees)).fits = false

theorem overflow_of_fault (whole : grammar.WellFormed) (signed : costs.Signed grammar)
    (startSigned : 0 ≤ start.tokens) {table : CostTable}
    (earned : table.Earned grammar costs) {production : Production}
    (member : production ∈ grammar.productions) {fault : Fault}
    (failed : table.faultOf costs start production = some fault) :
    fault = .numberTooLarge ∧ grammar.SumsOverflow costs start := by
  have broken : production.rhs.foldlM (table.gather costs) (some start) = .error fault := by
    unfold CostTable.faultOf at failed
    split at failed
    · cases failed
    · rename_i equal
      rw [equal, Option.some.inj failed]
  obtain ⟨front, symbol, rest, total, shape, gathered, failed⟩ := except_fold_m_error broken
  have known : grammar.KnowsAll (front ++ symbol :: rest) := shape ▸ whole.body_known member
  have symbolKnown : grammar.Knows symbol := known symbol (by simp)
  rw [CostTable.gather_eq whole earned.size symbolKnown] at failed
  have summed := CostTable.gathered_eq whole earned.size known.left gathered
  obtain ⟨rfl, overflow⟩ := Cost.meet_eq_error failed
  refine ⟨rfl, production, member, ?_⟩
  rw [shape]
  rcases overflow with ⟨cost, rfl, _, beyond⟩ | ⟨cost, rfl, amount, beyond⟩
  · -- The front costs too much beside a symbol of unknown cost.
    obtain ⟨_, second, same, body, rfl⟩ := Cost.sum_eq_some_iff.1 summed.symm
    obtain rfl := Option.some.inj same
    obtain ⟨trees, forest, rfl, frugal⟩ := earned.of_sequence whole known.left body
    refine ⟨front, (List.prefix_append _ _).isInfix, by simp, trees, forest, ?_, beyond⟩
    exact fun tree among => (frugal tree among).slim
  · -- The symbol costs too much behind a front of unknown cost, which is not empty then.
    obtain ⟨tree, frugal, rfl, rfl⟩ := earned.of_symbol whole symbolKnown amount
    have filled : front ≠ [] := by
      rintro rfl
      cases summed
    refine ⟨[tree.root], ⟨front, rest, by simp⟩, ?_, [tree], ?_, ?_, ?_⟩
    · have := List.length_pos_iff.2 filled
      simp
      omega
    · exact Forest.cons frugal.complete Forest.nil
    · intro other among
      obtain rfl := List.mem_singleton.1 among
      exact frugal.slim
    · have single : totalCost costs [tree] = tree.cost costs := Cost.add_zero _
      rw [single]
      exact Cost.add_beyond startSigned
        (signed.tree_tokens whole frugal.complete frugal.known) beyond

/-- What holds while costs are settled and faults are looked for. -/
structure Traced (grammar : Grammar) (costs : TokenCosts) (start : Cost) (trial : Trial) : Prop where
  earned : trial.table.Earned grammar costs
  fault : ∀ fault ∈ trial.fault, fault = .numberTooLarge ∧ grammar.SumsOverflow costs start

theorem Traced.after_learn {trial : Trial} (traced : Traced grammar costs start trial)
    (whole : grammar.WellFormed) (signed : costs.Signed grammar) (startSigned : 0 ≤ start.tokens)
    {production : Production} (member : production ∈ grammar.productions) :
    Traced grammar costs start (trial.learn costs start production) where
  earned := traced.earned.after_learn whole signed member
  fault := by
    intro fault found
    rcases Option.or_eq_some_iff.1 found with earlier | ⟨_, now⟩
    · exact traced.fault fault earlier
    · exact overflow_of_fault whole signed startSigned traced.earned member now

theorem check_sums_cases (whole : grammar.WellFormed) (signed : costs.Signed grammar)
    (startSigned : 0 ≤ start.tokens) : grammar.checkSums costs start = .ok () ∨
      grammar.checkSums costs start = .error .numberTooLarge ∧
        grammar.SumsOverflow costs start := by
  have initially : Traced grammar costs start ⟨CostTable.blank grammar, none⟩ :=
    ⟨CostTable.blank_earned whole, by simp⟩
  have settled : Traced grammar costs start
      (settle (Trial.pass costs start grammar.productions) (grammar.nonterminals.length + 2)
        ⟨CostTable.blank grammar, none⟩).1 :=
    settled_fold_keeps
      (fun production member _ traced => traced.after_learn whole signed startSigned member)
      _ initially
  unfold checkSums
  dsimp only
  split
  · rename_i fault found
    obtain ⟨rfl, overflow⟩ := settled.fault fault found
    exact Or.inr ⟨rfl, overflow⟩
  · exact Or.inl rfl

end Grammar

end GrammarKit
