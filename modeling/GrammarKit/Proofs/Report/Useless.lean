import GrammarKit.Proofs.Follow.Textbook
import GrammarKit.Proofs.Report.Exact
import Mathlib.Logic.Relation

/-!
# Useless rules

A report finds a nonterminal useless for one of three reasons: it has no productions, it is out of
reach, or it derives no text. What is left is of use in both directions, so a nonterminal is useful
exactly when it is reached from the augmented start and derives some text. Complete trees of the
augmented start are made of useful symbols only. Without useless nonterminals every production has a
place in such a tree.
-/

namespace GrammarKit

set_option autoImplicit false

/-- The kinds of findings that make a nonterminal useless. -/
def DiagnosticKind.marksUseless : DiagnosticKind → Bool
  | emptyRule | unreachableNonterminal | unproductiveNonterminal => true
  | _ => false

def Report.uselessSymbols (report : Report) : List Symbol :=
  (report.diagnostics.filter fun finding => finding.kind.marksUseless).map (·.symbol)

/-- Replaces the head of one of some productions by its right-hand side. -/
inductive Rewrites (productions : List Production) : List Symbol → List Symbol → Prop where
  | expand {production : Production} (member : production ∈ productions)
      (before after : List Symbol) :
      Rewrites productions (before ++ production.lhs :: after) (before ++ production.rhs ++ after)

/-- Any number of replacements, one behind the other. -/
def RewritesTo (productions : List Production) : List Symbol → List Symbol → Prop :=
  Relation.ReflTransGen (Rewrites productions)

namespace Grammar

/-- What is left when the rules of some nonterminals are dropped, and all alternatives that mention
them. -/
def productionsWithout (grammar : Grammar) (dropped : List Symbol) : List Production :=
  grammar.productions.filter fun production =>
    production.lhs ∉ dropped ∧ ∀ symbol ∈ production.rhs, symbol ∉ dropped

def Useful (grammar : Grammar) (symbol : Symbol) : Prop :=
  grammar.Reaches grammar.augmentedStart symbol ∧ grammar.DerivesTokens symbol

variable {grammar : Grammar}

theorem has_production_of_derives (whole : grammar.WellFormed) {symbol : Symbol}
    (member : symbol ∈ grammar.nonterminals) (derives : grammar.DerivesTokens symbol) :
    grammar.HasProduction symbol := by
  obtain ⟨tokens, terminals, derivation⟩ := derives
  rcases derivation.of_symbol with same | ⟨production, listed, head, _⟩
  · have kind := terminals symbol (by simp [same])
    rw [whole.nonterminal_kind member] at kind
    cases kind
  · exact ⟨production, listed, head⟩

theorem mem_useless_symbols {report : Report} {symbol : Symbol} :
    symbol ∈ report.uselessSymbols ↔ .emptyRule symbol ∈ report.diagnostics ∨
      (∃ start, .unreachable symbol start ∈ report.diagnostics) ∨
      .unproductive symbol ∈ report.diagnostics := by
  unfold Report.uselessSymbols
  rw [List.mem_map]
  constructor
  · intro marked
    obtain ⟨finding, kept, rfl⟩ := marked
    obtain ⟨member, kind⟩ := List.mem_filter.1 kept
    cases finding with
    | emptyRule symbol => exact Or.inl member
    | unreachable symbol start => exact Or.inr (Or.inl ⟨start, member⟩)
    | unproductive symbol => exact Or.inr (Or.inr member)
    | _ => cases kind
  · intro found
    rcases found with member | ⟨start, member⟩ | member
    · exact ⟨_, List.mem_filter.2 ⟨member, rfl⟩, rfl⟩
    · exact ⟨_, List.mem_filter.2 ⟨member, rfl⟩, rfl⟩
    · exact ⟨_, List.mem_filter.2 ⟨member, rfl⟩, rfl⟩

theorem useless_iff (whole : grammar.WellFormed) {symbol : Symbol} :
    symbol ∈ grammar.owedReport.uselessSymbols ↔
      symbol ∈ grammar.nonterminals ∧ ¬grammar.Useful symbol := by
  rw [mem_useless_symbols, empty_rule_reported_iff, unproductive_reported_iff]
  simp only [unreachable_reported_iff]
  constructor
  · intro found
    rcases found with ⟨member, headless⟩ | ⟨_, ⟨member, unreached⟩, _⟩ | ⟨member, _, unproductive⟩
    · exact ⟨member, fun useful => headless (has_production_of_derives whole member useful.2)⟩
    · exact ⟨member, fun useful => unreached useful.1⟩
    · exact ⟨member, fun useful => unproductive useful.2⟩
  · intro useless
    obtain ⟨member, notUseful⟩ := useless
    by_cases headed : grammar.HasProduction symbol
    · by_cases derives : grammar.DerivesTokens symbol
      · have unreached : ¬grammar.Reaches grammar.augmentedStart symbol :=
          fun reached => notUseful ⟨reached, derives⟩
        exact Or.inr (Or.inl ⟨_, ⟨member, unreached⟩, rfl⟩)
      · exact Or.inr (Or.inr ⟨member, headed, derives⟩)
    · exact Or.inl ⟨member, headed⟩

section Trees

theorem complete_below {tree : DerivationTree} (complete : DerivationTree.Complete grammar tree) :
    ∀ entry ∈ tree.preorder, grammar.Reaches tree.root entry.1.symbol ∧
      grammar.DerivesTokens entry.1.symbol := by
  have derives {tree : DerivationTree} (complete : DerivationTree.Complete grammar tree) :
      grammar.DerivesTokens tree.root :=
    ⟨tree.leaves, complete.leaves_are_terminals, complete.derives⟩
  induction complete with
  | @token symbol terminal =>
      intro entry among
      obtain rfl := List.mem_singleton.1 among
      exact ⟨.refl symbol, derives_tokens_of_terminal terminal⟩
  | @expansion production children member nonterminal body below ih =>
      intro entry among
      rw [RoseTree.preorder_node] at among
      rcases List.mem_cons.1 among with rfl | inside
      · exact ⟨.refl _, derives (.expansion member nonterminal body below)⟩
      · obtain ⟨child, listed, found⟩ := List.mem_flatMap.1 inside
        obtain ⟨reached, derived⟩ := ih child listed entry found
        have occurs : DerivationTree.root child ∈ production.rhs := by
          rw [← body]
          exact List.mem_map_of_mem listed
        exact ⟨(Reaches.of_production member occurs).trans reached, derived⟩

/-- The trees of a form grow into a forest of whatever the form was derived from. -/
theorem forest_of_derives (whole : grammar.WellFormed) {form final : List Symbol}
    (derivation : grammar.Derives form final) {trees : List DerivationTree}
    (forest : DerivationTree.Forest grammar final trees) :
    ∃ earlier, DerivationTree.Forest grammar form earlier ∧
      trees.flatMap RoseTree.preorder ⊆ earlier.flatMap RoseTree.preorder := by
  apply derivation.from_first (motive := fun form => ∃ earlier,
    DerivationTree.Forest grammar form earlier ∧
      trees.flatMap RoseTree.preorder ⊆ earlier.flatMap RoseTree.preorder)
  · exact ⟨trees, forest, fun _ member => member⟩
  · intro form next step grown
    obtain ⟨later, laterForest, kept⟩ := grown
    obtain ⟨earlier, earlierForest, _, held⟩ :=
      DerivationTree.forest_of_step whole step laterForest
    exact ⟨earlier, earlierForest, fun _ member => held (kept member)⟩

theorem forest_of_each (whole : grammar.WellFormed) {form : List Symbol}
    (each : ∀ symbol ∈ form, grammar.DerivesTokens symbol) :
    ∃ trees, DerivationTree.Forest grammar form trees := by
  obtain ⟨tokens, terminals, derivation⟩ := derives_tokens_of_each each
  obtain ⟨trees, forest, _⟩ := DerivationTree.forest_of_derivation whole derivation terminals
  exact ⟨trees, forest⟩

/-- Where all that the production needs and all that stands beside it derives some text, the
production has a place in a tree. -/
theorem production_in_tree (whole : grammar.WellFormed) {production : Production}
    (member : production ∈ grammar.productions) {origin : Symbol}
    (originKnown : grammar.Knows origin)
    (reached : grammar.Reaches origin production.lhs)
    (each : ∀ symbol, grammar.Knows symbol → grammar.DerivesTokens symbol) :
    ∃ tree, DerivationTree.Complete grammar tree ∧ tree.root = origin ∧
      ∃ entry ∈ tree.preorder, entry.1.production = some production := by
  obtain ⟨before, after, derivation⟩ := reached
  have known := derivation.known whole (.singleton originKnown)
  obtain ⟨children, body⟩ := forest_of_each whole fun symbol occurs =>
    each symbol (whole.body_known member symbol occurs)
  obtain ⟨left, leftForest⟩ := forest_of_each whole fun symbol occurs =>
    each symbol (known.left symbol occurs)
  obtain ⟨right, rightForest⟩ := forest_of_each whole fun symbol occurs =>
    each symbol (known.right.tail symbol occurs)
  have node := body.expansion whole member
  obtain ⟨trees, forest, kept⟩ := forest_of_derives whole derivation
    (leftForest.append (DerivationTree.Forest.cons node rightForest))
  obtain ⟨tree, rest, rfl, start, complete, others⟩ := forest.of_cons
  obtain rfl : rest = [] := List.map_eq_nil_iff.1 others.roots
  refine ⟨tree, complete, start, (⟨production.lhs, some production⟩, children.length), ?_, rfl⟩
  have placed := kept (a := (⟨production.lhs, some production⟩, children.length))
  simpa [RoseTree.preorder_node] using placed

end Trees

section Texts

variable {dropped : List Symbol}

theorem derives_of_rewrites {form final : List Symbol}
    (rewritten : RewritesTo (grammar.productionsWithout dropped) form final) :
    grammar.Derives form final := by
  induction rewritten with
  | refl => exact .refl
  | tail _ last ih =>
      cases last with
      | expand member before after =>
          exact .tail ih (.expand (List.mem_filter.1 member).1 before after)

/-- A derivation of symbols that all derive some text needs no production of a useless symbol. -/
theorem rewrites_of_derives (spared : ∀ symbol, grammar.Useful symbol → symbol ∉ dropped)
    {final : List Symbol} (derivation : grammar.Derives [grammar.augmentedStart] final)
    (each : ∀ symbol ∈ final, grammar.DerivesTokens symbol) :
    RewritesTo (grammar.productionsWithout dropped) [grammar.augmentedStart] final := by
  induction derivation with
  | refl => exact .refl
  | tail earlier last ih =>
      cases last with
      | @expand production member before after =>
          have body : ∀ symbol ∈ production.rhs, grammar.DerivesTokens symbol :=
            fun symbol occurs => each symbol (by simp [occurs])
          have head := derives_tokens_of_production member body
          have reached : grammar.Reaches grammar.augmentedStart production.lhs :=
            ⟨before, after, earlier⟩
          have kept : production ∈ grammar.productionsWithout dropped := by
            refine List.mem_filter.2 ⟨member, decide_eq_true ⟨spared _ ⟨reached, head⟩, ?_⟩⟩
            intro symbol occurs
            exact spared symbol
              ⟨reached.trans (.of_production member occurs), body symbol occurs⟩
          refine (ih ?_).tail (.expand kept before after)
          intro symbol occurs
          rcases List.mem_append.1 occurs with front | behind
          · exact each symbol (by simp [front])
          · rcases List.mem_cons.1 behind with rfl | back
            · exact head
            · exact each symbol (by simp [back])

end Texts

end Grammar

namespace Declarations

variable {declarations : Declarations} {variant : Variant} {grammar : Grammar}

/-- No useless nonterminal stands in a complete tree of the augmented start, so all texts are left
when its rules and what mentions it are dropped. Where no nonterminal is useless, no production
is. -/
theorem report_tells_useless_rules (built : declarations.build variant = .ok grammar) :
    ∃ report, (grammar.validate {}).outcome = .ok report ∧
      (∀ tree, DerivationTree.Complete grammar tree → tree.root = grammar.augmentedStart →
        ∀ entry ∈ tree.preorder, entry.1.symbol ∉ report.uselessSymbols) ∧
      (∀ text : List Symbol, (∀ token ∈ text, token.isTerminal) →
        (grammar.Derives [grammar.augmentedStart] text ↔
          RewritesTo (grammar.productionsWithout report.uselessSymbols)
            [grammar.augmentedStart] text)) ∧
      (report.uselessSymbols = [] → ∀ production ∈ grammar.productions,
        ∃ tree, DerivationTree.Complete grammar tree ∧ tree.root = grammar.augmentedStart ∧
          ∃ entry ∈ tree.preorder, entry.1.production = some production) := by
  have whole := well_formed_of_build built
  have useless : ∀ symbol, symbol ∈ grammar.owedReport.uselessSymbols ↔
      symbol ∈ grammar.nonterminals ∧ ¬grammar.Useful symbol :=
    fun _ => Grammar.useless_iff whole
  refine ⟨_, validate_of_build built, ?_, ?_, ?_⟩
  · intro tree complete root entry among marked
    have useful := Grammar.complete_below complete entry among
    rw [root] at useful
    exact ((useless _).1 marked).2 useful
  · intro text terminals
    constructor
    · intro derivation
      apply Grammar.rewrites_of_derives _ derivation
      · intro token member
        exact Grammar.derives_tokens_of_terminal (terminals token member)
      · intro symbol useful marked
        exact ((useless symbol).1 marked).2 useful
    · exact Grammar.derives_of_rewrites
  · intro spotless production member
    have useful : ∀ symbol ∈ grammar.nonterminals, grammar.Useful symbol := by
      intro symbol among
      by_contra notUseful
      have marked := (useless symbol).2 ⟨among, notUseful⟩
      rw [spotless] at marked
      cases marked
    apply Grammar.production_in_tree whole member (Or.inr whole.augmented_start_known)
      (useful _ (whole.heads_known production member)).1
    intro symbol known
    cases kind : symbol.isTerminal with
    | true => exact Grammar.derives_tokens_of_terminal kind
    | false => exact (useful symbol (whole.nonterminal_known known kind)).2

/-- Among the comparisons two nonterminals are useless, and in a series none is. -/
theorem useless_rules_of_comparisons :
    comparisonDeclarations.build .plain = .ok comparisons ∧
      (∃ report, (comparisons.validate {}).outcome = .ok report ∧
        report.uselessSymbols = [⟨.nonterminal, 1, "X"⟩, ⟨.nonterminal, 1, "X"⟩,
          ⟨.nonterminal, 2, "Y"⟩, ⟨.nonterminal, 2, "Y"⟩] ∧
        ∀ tree, DerivationTree.Complete comparisons tree → tree.root = comparisons.augmentedStart →
          ∀ entry ∈ tree.preorder, entry.1.symbol ∉ report.uselessSymbols) ∧
      FollowTable.seriesDeclarations.build .plain = .ok FollowTable.series ∧
      ∀ production ∈ FollowTable.series.productions,
        ∃ tree, DerivationTree.Complete FollowTable.series tree ∧
          tree.root = FollowTable.series.augmentedStart ∧
          ∃ entry ∈ tree.preorder, entry.1.production = some production := by
  obtain ⟨report, validated, absent, _, _⟩ := report_tells_useless_rules comparisons_built
  obtain ⟨clean, cleanValidated, _, _, applied⟩ :=
    report_tells_useless_rules FollowTable.series_built
  have found : (comparisons.validate {}).outcome = .ok ⟨comparisonFindings⟩ := by
    decide +kernel
  have spotless : (FollowTable.series.validate {}).outcome = .ok ⟨[]⟩ := by
    decide +kernel
  obtain rfl := Except.ok.inj (validated.symm.trans found)
  obtain rfl := Except.ok.inj (cleanValidated.symm.trans spotless)
  exact ⟨comparisons_built, ⟨_, validated, rfl, absent⟩, FollowTable.series_built, applied rfl⟩

end Declarations

end GrammarKit
