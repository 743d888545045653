import GrammarKit.Proofs.Generator.Cheapest
import GrammarKit.Proofs.Generator.Sound

/-!
# Random all the way or not at all

The slack of a run keeps its sign. With a budget for the fewest expansions there is slack at every
node, and each expansion asks the picker for one of the candidates. With a smaller budget there is
none at any node, and the tree is the one of the forced productions, whatever the picker, the
weights and the budget are.
-/

namespace GrammarKit

set_option autoImplicit false

open DerivationTree

namespace Progress

variable {σ : Type}

/-- The accounts after trees that took just what was in reserve for them. -/
def paid (progress : Progress σ) (total : Nat) : Progress σ :=
  { progress with
    remaining := progress.remaining - total
    reserved := progress.reserved - total }

theorem slack_paid (progress : Progress σ) (total : Nat) :
    (progress.paid total).slack = progress.slack := by
  unfold slack paid
  dsimp only
  omega

theorem paid_nothing (progress : Progress σ) : progress.paid 0 = progress := by
  simp [paid]

theorem paid_paid (progress : Progress σ) (first later : Nat) :
    (progress.paid first).paid later = progress.paid (first + later) := by
  unfold paid
  congr 1 <;> push_cast <;> omega

theorem paid_charged (progress : Progress σ) (pending : Nat) :
    (progress.charged (pending + 1) pending).paid pending = progress.paid (pending + 1) := by
  unfold paid charged
  congr 1 <;> push_cast <;> omega

end Progress

namespace Generator

variable {σ : Type} {generator : Generator} {picker : Picker σ} {symbol : Symbol}
  {production : Production} {start middle final : Progress σ} {least : Nat}

section Forced

/-- The tree of the forced productions, as far as it is at most `height` expansions deep. -/
def forcedTree (generator : Generator) : Nat → Symbol → DerivationTree
  | 0, symbol => leaf symbol
  | height + 1, symbol =>
      if symbol.isTerminal then leaf symbol
      else
        match best? generator.fewer (generator.alternatives symbol) with
        | some production =>
            .node ⟨symbol, some production⟩ (production.rhs.map (generator.forcedTree height))
        | none => leaf symbol

theorem forced_tree_of_terminal (terminal : symbol.isTerminal) (height : Nat) :
    generator.forcedTree height symbol = leaf symbol := by
  cases height with
  | zero => rfl
  | succ height => exact if_pos terminal

theorem forced_tree_of_nonterminal (nonterminal : symbol.isTerminal = false)
    (found : best? generator.fewer (generator.alternatives symbol) = some production)
    (height : Nat) :
    generator.forcedTree (height + 1) symbol =
      .node ⟨symbol, some production⟩ (production.rhs.map (generator.forcedTree height)) := by
  rw [forcedTree, nonterminal, found]
  rfl

theorem forced_tree_root (height : Nat) (symbol : Symbol) :
    (generator.forcedTree height symbol).root = symbol := by
  cases height with
  | zero => rfl
  | succ height =>
      unfold forcedTree
      split
      · rfl
      · split <;> rfl

theorem map_forced_tree_root (height : Nat) (form : List Symbol) :
    (form.map (generator.forcedTree height)).map root = form := by
  rw [List.map_map]
  exact List.map_id'' (forced_tree_root height) form

/-- Budget, weights and FIRST sets have no part in what is forced. -/
theorem forced_tree_same (grammar : Grammar) (options others : GeneratorOptions)
    (table another : FirstTable) (height : Nat) (symbol : Symbol) :
    (equipped grammar options table).forcedTree height symbol =
      (equipped grammar others another).forcedTree height symbol := by
  induction height generalizing symbol with
  | zero => rfl
  | succ height ih =>
      have below : (equipped grammar options table).forcedTree height =
          (equipped grammar others another).forcedTree height := funext ih
      unfold forcedTree
      rw [below]
      rfl

theorem grown_forced_token (picker : Picker σ) (terminal : symbol.isTerminal)
    (needed : generator.need symbol = some least) (height : Nat) :
    Grown generator picker start [generator.forcedTree height symbol] (start.paid least) := by
  rw [need_of_terminal terminal, Option.some.injEq] at needed
  rw [← needed, Progress.paid_nothing, forced_tree_of_terminal terminal]
  exact Grown.token terminal (Grown.nil start)

theorem grown_forced_all (picker : Picker σ) {height : Nat}
    (single : ∀ (symbol : Symbol) (start : Progress σ) (least : Nat),
      generator.grammar.Knows symbol → generator.need symbol = some least → start.slack < 0 →
      least ≤ height →
      Grown generator picker start [generator.forcedTree height symbol] (start.paid least))
    {form : List Symbol} {total : Nat} (known : generator.grammar.KnowsAll form)
    (needed : generator.needAll form = some total) (short : start.slack < 0)
    (enough : total ≤ height) :
    Grown generator picker start (form.map (generator.forcedTree height)) (start.paid total) := by
  induction form generalizing start total with
  | nil =>
      cases needed
      rw [Progress.paid_nothing]
      exact Grown.nil start
  | cons symbol rest ih =>
      obtain ⟨least, later, headNeed, restNeed, rfl⟩ := need_all_cons_iff.1 needed
      have first := single symbol start least (known symbol List.mem_cons_self) headNeed short
        (by omega)
      have others := ih known.tail restNeed
        (show (start.paid least).slack < 0 by rwa [Progress.slack_paid]) (by omega)
      rw [Progress.paid_paid] at others
      exact Grown.cons_iff.2 ⟨_, first, others⟩

variable (prepared : generator.Prepared) (picker : Picker σ)

include prepared

/-- Without slack the forced tree grows, and it takes what its root needs. So there is no slack
after it either. -/
theorem Prepared.grown_forced {height : Nat} (known : generator.grammar.Knows symbol)
    (needed : generator.need symbol = some least) (short : start.slack < 0)
    (enough : least ≤ height) :
    Grown generator picker start [generator.forcedTree height symbol] (start.paid least) := by
  induction height generalizing symbol start least with
  | zero =>
      cases kind : symbol.isTerminal with
      | true => exact grown_forced_token picker kind needed 0
      | false =>
          have member := prepared.whole.nonterminal_known known kind
          obtain ⟨_, _, _, _, same⟩ := prepared.least_alternative member needed
          omega
  | succ height ih =>
      cases kind : symbol.isTerminal with
      | true => exact grown_forced_token picker kind needed (height + 1)
      | false =>
          have member := prepared.whole.nonterminal_known known kind
          obtain ⟨production, found⟩ := prepared.best_found member needed
          obtain ⟨pending, listed, waiting, rfl, expanded⟩ :=
            prepared.expand_best member needed picker short found
          obtain ⟨applied, _, _⟩ := (prepared.mem_alternatives_iff member).1 listed
          have between : (start.charged (pending + 1) pending).slack < 0 := by
            rw [Progress.slack_charged]
            omega
          have below := grown_forced_all picker
            (fun _ _ _ known needed short enough => ih known needed short enough)
            (prepared.whole.body_known applied) waiting between (by omega)
          rw [Progress.paid_charged] at below
          rw [forced_tree_of_nonterminal kind found]
          exact Grown.expansion kind expanded (map_forced_tree_root height _) below (Grown.nil _)

theorem Prepared.forced_tree_least (known : generator.grammar.Knows symbol)
    (needed : generator.need symbol = some least) :
    Complete generator.grammar (generator.forcedTree least symbol) ∧
      (generator.forcedTree least symbol).expansionCount = least := by
  have short : (⟨0, 1, (), []⟩ : Progress Unit).slack < 0 := by decide
  have grown := prepared.grown_forced ⟨fun _ nonempty _ source => (.ok ⟨0, nonempty⟩, source)⟩
    known needed short (Nat.le_refl least)
  have root : (generator.forcedTree least symbol).root = symbol := forced_tree_root least symbol
  obtain ⟨complete, balanced⟩ :=
    prepared.grown_single grown (root.symm ▸ known) (root.symm ▸ needed)
  exact ⟨complete, balanced.exact short⟩

theorem Prepared.tree_forced (member : symbol ∈ generator.grammar.nonterminals)
    (derives : generator.grammar.DerivesTokens symbol)
    (needed : generator.need symbol = some least)
    (short : (generator.maxExpansions : Int) < least) (source : σ) :
    generator.tree picker symbol source =
      (.ok (generator.forcedTree least symbol), (generator.start symbol source).paid least) := by
  have slack := start_slack needed source
  apply prepared.tree_of_grown member derives
  · exact prepared.grown_forced picker (Or.inr member) needed (by omega) (Nat.le_refl least)
  · exact forced_tree_root least symbol
  · rw [(prepared.forced_tree_least (Or.inr member) needed).2, needed, Option.getD_some]
    exact le_max_right _ _

end Forced

section Asking

/-- The production of a node is the candidate that the picker has been asked for, once. -/
structure AppliesAsked (generator : Generator) (picker : Picker σ) (symbol : Symbol)
    (before : Progress σ) (production : Production) (after : Progress σ) : Prop where
  applies : generator.Applies picker symbol before production after
  asked : Asked generator picker symbol before (.ok production) after

theorem Asked.counted {answer : Except Fault Production}
    (asked : Asked generator picker symbol start answer final) :
    final.draws.length = start.draws.length + 1 := by
  obtain ⟨_, _, _, _, _, _, drawn⟩ := asked
  rw [drawn, List.length_cons]

theorem counted_of_works {agenda ending : Agenda σ} {applied : List Production}
    (works : Works (generator.AppliesAsked picker) agenda applied ending) :
    ending.progress.draws.length = agenda.progress.draws.length + applied.length := by
  induction works with
  | rest agenda => rfl
  | token _ _ ih => exact ih
  | @expansion _ _ before after production applied ending _ expanded _ ih =>
      have once : after.draws.length = before.draws.length + 1 := expanded.asked.counted
      calc ending.progress.draws.length
        _ = after.draws.length + applied.length := ih
        _ = before.draws.length + (production :: applied).length := by
          rw [once, List.length_cons]
          omega

/-- While there is slack each expansion asks, and there is slack behind it as well. -/
theorem Prepared.works_asked (prepared : generator.Prepared) {agenda ending : Agenda σ}
    {applied : List Production} (works : Works (generator.Applies picker) agenda applied ending)
    (orderly : generator.Orderly agenda) (enough : 0 ≤ agenda.progress.slack) :
    Works (generator.AppliesAsked picker) agenda applied ending := by
  have kept : Works (generator.AppliesAsked picker) agenda applied ending ∧
      generator.Orderly ending ∧ 0 ≤ ending.progress.slack := by
    apply works.relying _ _ ⟨orderly, enough⟩
    · intro symbol waiting progress _ kept
      exact ⟨fun part among => kept.1 part (List.mem_cons_of_mem symbol among), kept.2⟩
    · intro symbol waiting before production after nonterminal expanded kept
      obtain ⟨member, least, needed⟩ := prepared.need_of_orderly kept.1 nonterminal
      have asked := prepared.expand_asks member needed kept.2 expanded
      have later := prepared.orderly_after kept.1 nonterminal expanded
      exact ⟨⟨expanded, asked.1⟩, later, asked.2⟩
  exact kept.1

/-- How a run asks the picker. With a tree it has asked once for each production applied, in their
order. Otherwise it has asked so up to some node. There it halts either without asking, at candidates
whose weights have no sum, or with the fault of the picker that it asks for one of them. -/
def AlwaysAsks (generator : Generator) (picker : Picker σ) (symbol : Symbol) (source : σ) : Prop :=
  (∃ tree final, generator.tree picker symbol source = (.ok tree, final) ∧
    Works (generator.AppliesAsked picker) (generator.outset symbol source) tree.applied
      ⟨[], final⟩ ∧
    final.draws.length = tree.expansionCount) ∨
  ∃ fault final applied node before,
    generator.tree picker symbol source = (.error fault, final) ∧
      Halts (generator.AppliesAsked picker) generator picker (generator.outset symbol source) applied
        node before fault final ∧
      (Overweight generator node before fault final ∧ final.draws.length = applied.length ∨
        Asked generator picker node before (.error fault) final ∧
          final.draws.length = applied.length + 1)

theorem Prepared.tree_asks (prepared : generator.Prepared) (picker : Picker σ)
    (member : symbol ∈ generator.grammar.nonterminals)
    (derives : generator.grammar.DerivesTokens symbol)
    (needed : generator.need symbol = some least)
    (enough : (least : Int) ≤ generator.maxExpansions) (source : σ) :
    generator.AlwaysAsks picker symbol source := by
  have slack := start_slack needed source
  have orderly := outset_orderly member derives source
  have rich : 0 ≤ (generator.outset symbol source).progress.slack := by
    change 0 ≤ (generator.start symbol source).slack
    omega
  rcases prepared.tree_ends member derives picker source with
    ⟨tree, final, done, works⟩ | ⟨fault, final, applied, node, before, failed, halts⟩
  · have asked := prepared.works_asked works orderly rich
    have complete := (prepared.tree_bounded member done).1
    have counted := counted_of_works asked
    refine Or.inl ⟨tree, final, done, asked, ?_⟩
    rw [← complete.length_applied]
    exact counted.trans (Nat.zero_add _)
  · obtain ⟨waiting, works⟩ := halts.reached
    have asked := prepared.works_asked works orderly rich
    have counted : before.draws.length = applied.length :=
      (counted_of_works asked).trans (Nat.zero_add _)
    refine Or.inr ⟨fault, final, applied, node, before, failed,
      ⟨⟨waiting, asked⟩, halts.nonterminal, halts.failed⟩, ?_⟩
    rcases prepared.halts_why orderly halts with heavy | refused
    · exact Or.inl ⟨heavy, by rw [heavy.draws, counted]⟩
    · exact Or.inr ⟨refused, by rw [refused.counted, counted]⟩

end Asking

end Generator

namespace Declarations

open Generator Grammar

variable {declarations : Declarations} {variant : Variant} {grammar : Grammar}

/-- For each nonterminal that derives some text there is one tree with the fewest expansions that all
generators with a smaller budget return, without asking the picker. With a budget for the fewest
expansions or more each expansion asks it. Only where the weights of its candidates have no sum an
expansion halts the run before it asks. -/
theorem always_random_or_never (built : declarations.build variant = .ok grammar) :
    (∀ options, InOrder grammar options → MadeUnlessOverflow grammar options) ∧
    ∀ symbol ∈ grammar.nonterminals, grammar.DerivesTokens symbol →
      ∃ least forced, grammar.LeastExpansions symbol least ∧ Complete grammar forced ∧
        forced.root = symbol ∧ forced.expansionCount = least ∧
        ∀ options firsts generator, (ofGrammar grammar options firsts).outcome = .ok generator →
          ∀ {σ : Type} (picker : Picker σ) (source : σ),
            (options.maxExpansions < least →
              ∃ final, generator.tree picker symbol source = (.ok forced, final) ∧
                final.draws = [] ∧ final.source = source) ∧
            (least ≤ options.maxExpansions → generator.AlwaysAsks picker symbol source) := by
  have whole := well_formed_of_build built
  refine ⟨fun _ ordered => made_unless_overflow whole ordered, ?_⟩
  intro symbol member derives
  have blank : (equipped grammar {} (FirstTable.settled grammar).1).Prepared :=
    equipped_prepared whole _
  obtain ⟨least, needed⟩ := blank.need_of_derives (Or.inr member) derives
  obtain ⟨complete, count⟩ := blank.forced_tree_least (Or.inr member) needed
  refine ⟨least, _, blank.need_least (Or.inr member) needed, complete,
    forced_tree_root least symbol, count, ?_⟩
  intro options firsts generator made σ picker source
  obtain ⟨admitted, table, rfl⟩ := of_grammar_eq_ok made
  have prepared : (equipped grammar options table).Prepared := equipped_prepared whole table
  have budget : ((equipped grammar options table).maxExpansions : Int) = options.maxExpansions :=
    Int.toNat_of_nonneg admitted.budget
  constructor
  · intro short
    have run := prepared.tree_forced picker member derives needed (by omega) source
    rw [forced_tree_same grammar options {} table (FirstTable.settled grammar).1] at run
    exact ⟨_, run, rfl, rfl⟩
  · intro enough
    exact prepared.tree_asks picker member derives needed (by omega) source

section Choice

/-- One expansion is enough, so that a budget of none leaves no choice. -/
theorem random_or_forced_choice :
    choiceDeclarations.build .plain = .ok choice ∧ choice.start ∈ choice.nonterminals ∧
      choice.DerivesTokens choice.start ∧ choice.LeastExpansions choice.start 1 ∧
      ∃ forced rich poor, (ofGrammar choice {} none).outcome = .ok rich ∧
        (ofGrammar choice { maxExpansions := 0 } none).outcome = .ok poor ∧
        ∀ {σ : Type} (picker : Picker σ) (source : σ),
          rich.AlwaysAsks picker choice.start source ∧
          ∃ final, poor.tree picker choice.start source = (.ok forced, final) ∧
            final.draws = [] ∧ final.source = source := by
  have whole := well_formed_of_build choice_built
  have member : choice.start ∈ choice.nonterminals := by decide
  have thrifty : Admitted choice { maxExpansions := 0 } :=
    ⟨Int.le_refl 0, no_weights, rfl, rfl, choice_costs_checked⟩
  have rich := of_grammar_of_admitted whole (choice_admitted no_weights) none
  have poor := of_grammar_of_admitted whole thrifty none
  obtain ⟨_, told⟩ := always_random_or_never choice_built
  obtain ⟨least, forced, fewest, _, _, _, runs⟩ := told choice.start member choice_productive
  obtain rfl := fewest.unique choice_least
  refine ⟨choice_built, member, choice_productive, choice_least, forced, _, _, rich, poor, ?_⟩
  intro σ picker source
  exact ⟨(runs _ none _ rich picker source).2 (by decide),
    (runs _ none _ poor picker source).1 (by decide)⟩

/-- The budget is more than enough, but the weights of the two candidates have no sum, and the run
stops before it asks the picker. For a tower there is no generator to ask anything. -/
theorem heavy_choice_asks_nothing :
    (choiceDeclarations.build .plain = .ok choice ∧ choice.start ∈ choice.nonterminals ∧
      choice.LeastExpansions choice.start 1 ∧
      (∀ entry ∈ (heavyWeights doubleLimit).entries, entry.2.isNegative = false) ∧
      ∃ generator,
        (ofGrammar choice { weights := heavyWeights doubleLimit } none).outcome = .ok generator ∧
          1 ≤ generator.maxExpansions ∧
          ∃ final, generator.tree firstPicker choice.start () = (.error .numberTooLarge, final) ∧
            final.draws = []) ∧
    (towerDeclarations 1023).build .plain = .ok (declaredTower 1023) ∧
      floor 0 ∈ (declaredTower 1023).nonterminals ∧
      (declaredTower 1023).DerivesTokens (floor 0) ∧ InOrder (declaredTower 1023) {} ∧
      (ofGrammar (declaredTower 1023) {} none).outcome = .error .numberTooLarge := by
  have natural : (0 : Int) ≤ doubleLimit := Int.natCast_nonneg doubleLimit
  have allowed := heavy_weights_allowed natural
  have made := of_grammar_of_admitted (well_formed_of_build choice_built)
    (choice_admitted allowed) none
  refine ⟨?_, ground_without_generator⟩
  exact ⟨choice_built, by decide, choice_least, allowed, _, made, by decide,
    run_of_heavy_weights Weight.limit_beyond _⟩

end Choice

end Declarations

end GrammarKit
