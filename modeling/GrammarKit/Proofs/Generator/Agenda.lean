import GrammarKit.Proofs.Generator.Runs

/-!
# The agenda of a run

A run takes the symbols that wait one after the other. A terminal is done with at once, and in the
place of a nonterminal come the symbols of the production that is applied to it. Neither the height
nor the number of steps is bounded here. The bounded recursion follows such a run: either it returns
the tree of the productions applied, and no symbol waits any more, or the run halts at a node whose
expansion fails.
-/

namespace GrammarKit

set_option autoImplicit false

open DerivationTree

namespace DerivationTree

/-- The productions of a tree, from the root down and from left to right. -/
def applied (tree : DerivationTree) : List Production :=
  tree.preorder.filterMap fun entry => entry.1.production

theorem applied_leaf (symbol : Symbol) : (leaf symbol).applied = [] := by
  rw [applied, leaf, RoseTree.preorder_node]
  rfl

theorem applied_node {symbol : Symbol} {production : Production}
    {children : List DerivationTree} :
    applied (.node ⟨symbol, some production⟩ children) =
      production :: children.flatMap applied := by
  rw [applied, RoseTree.preorder_node, List.filterMap_cons, List.filterMap_flatMap]
  rfl

theorem Complete.length_applied {grammar : Grammar} {tree : DerivationTree}
    (complete : Complete grammar tree) : tree.applied.length = tree.expansionCount := by
  induction complete with
  | token terminal => rw [applied_leaf, expansion_count_leaf terminal, List.length_nil]
  | @expansion production children _ nonterminal _ _ ih =>
      rw [applied_node, List.length_cons, expansion_count_node nonterminal, List.length_flatMap,
        expansion_count_all_eq_sum, List.map_congr_left ih, Nat.add_comm]

end DerivationTree

/-- The symbols that wait, the next one first, and the accounts. -/
structure Agenda (σ : Type) where
  waiting : List Symbol
  progress : Progress σ

section Work

variable {σ : Type} {Expands Others : Symbol → Progress σ → Production → Progress σ → Prop}
  {start middle final : Agenda σ} {applied first later : List Production}

/-- Work on an agenda, with the productions that are applied meanwhile. -/
inductive Works (Expands : Symbol → Progress σ → Production → Progress σ → Prop) :
    Agenda σ → List Production → Agenda σ → Prop where
  | rest (agenda : Agenda σ) : Works Expands agenda [] agenda
  | token {symbol : Symbol} {waiting : List Symbol} {progress : Progress σ}
      {applied : List Production} {final : Agenda σ} (terminal : symbol.isTerminal)
      (onward : Works Expands ⟨waiting, progress⟩ applied final) :
      Works Expands ⟨symbol :: waiting, progress⟩ applied final
  | expansion {symbol : Symbol} {waiting : List Symbol} {before after : Progress σ}
      {production : Production} {applied : List Production} {final : Agenda σ}
      (nonterminal : symbol.isTerminal = false)
      (expanded : Expands symbol before production after)
      (onward : Works Expands ⟨production.rhs ++ waiting, after⟩ applied final) :
      Works Expands ⟨symbol :: waiting, before⟩ (production :: applied) final

theorem Works.trans (works : Works Expands start first middle)
    (onward : Works Expands middle later final) : Works Expands start (first ++ later) final := by
  induction works with
  | rest agenda => exact onward
  | token terminal _ ih => exact .token terminal (ih onward)
  | expansion nonterminal expanded _ ih => exact .expansion nonterminal expanded (ih onward)

theorem Works.beside (works : Works Expands start applied final) (others : List Symbol) :
    Works Expands ⟨start.waiting ++ others, start.progress⟩ applied
      ⟨final.waiting ++ others, final.progress⟩ := by
  induction works with
  | rest agenda => exact .rest _
  | token terminal _ ih => exact .token terminal ih
  | expansion nonterminal expanded _ ih =>
      rw [List.append_assoc] at ih
      exact .expansion nonterminal expanded ih

/-- What no step changes holds to the end, and each step can rely on it. -/
theorem Works.relying {Keeps : Agenda σ → Prop} (works : Works Expands start applied final)
    (passes : ∀ {symbol waiting progress}, symbol.isTerminal →
      Keeps ⟨symbol :: waiting, progress⟩ → Keeps ⟨waiting, progress⟩)
    (expands : ∀ {symbol waiting before production after}, symbol.isTerminal = false →
      Expands symbol before production after → Keeps ⟨symbol :: waiting, before⟩ →
        Others symbol before production after ∧ Keeps ⟨production.rhs ++ waiting, after⟩)
    (kept : Keeps start) : Works Others start applied final ∧ Keeps final := by
  induction works with
  | rest agenda => exact ⟨.rest agenda, kept⟩
  | token terminal _ ih =>
      have onward := ih (passes terminal kept)
      exact ⟨.token terminal onward.1, onward.2⟩
  | expansion nonterminal expanded _ ih =>
      have step := expands nonterminal expanded kept
      have onward := ih step.2
      exact ⟨.expansion nonterminal step.1 onward.1, onward.2⟩

end Work

namespace Generator

variable {σ : Type} {generator : Generator} {picker : Picker σ} {symbol node : Symbol}
  {start before final : Progress σ} {fault : Fault} {applied first : List Production}

/-- The production is what the expansion of the symbol comes to. -/
def Applies (generator : Generator) (picker : Picker σ) (symbol : Symbol) (before : Progress σ)
    (production : Production) (after : Progress σ) : Prop :=
  (generator.expand picker symbol).run before = (.ok production, after)

/-- The agenda that a run begins with. -/
def outset (generator : Generator) (symbol : Symbol) (source : σ) : Agenda σ :=
  ⟨[symbol], generator.start symbol source⟩

/-- The run comes to a node and halts there, as the expansion of this node fails. -/
structure Halts (Expands : Symbol → Progress σ → Production → Progress σ → Prop)
    (generator : Generator) (picker : Picker σ) (start : Agenda σ) (applied : List Production)
    (node : Symbol) (before : Progress σ) (fault : Fault) (final : Progress σ) : Prop where
  reached : ∃ waiting, Works Expands start applied ⟨node :: waiting, before⟩
  nonterminal : node.isTerminal = false
  failed : (generator.expand picker node).run before = (.error fault, final)

section Recursion

theorem Grown.works {trees : List DerivationTree} (grown : Grown generator picker start trees final) :
    Works (generator.Applies picker) ⟨trees.map root, start⟩ (trees.flatMap DerivationTree.applied)
      ⟨[], final⟩ := by
  induction grown with
  | nil start => exact .rest _
  | token terminal _ ih =>
      rw [List.flatMap_cons, applied_leaf]
      exact .token terminal ih
  | expansion nonterminal expanded body _ _ belowIh othersIh =>
      rw [List.flatMap_cons, applied_node]
      apply Works.expansion nonterminal expanded
      rw [← body]
      exact (belowIh.beside _).trans othersIh

theorem works_of_grow {height : Nat} {tree : DerivationTree}
    (done : (generator.grow picker height symbol).run start = (.ok tree, final)) :
    Works (generator.Applies picker) ⟨[symbol], start⟩ tree.applied ⟨[], final⟩ := by
  obtain ⟨grown, rfl, _⟩ := grow_eq_ok_iff.1 done
  have works := grown.works
  rwa [List.flatMap_singleton] at works

variable {Expands : Symbol → Progress σ → Production → Progress σ → Prop} {agenda middle : Agenda σ}

theorem Halts.after (halts : Halts Expands generator picker middle applied node before fault final)
    (works : Works Expands agenda first middle) :
    Halts Expands generator picker agenda (first ++ applied) node before fault final := by
  obtain ⟨waiting, onward⟩ := halts.reached
  exact ⟨⟨waiting, works.trans onward⟩, halts.nonterminal, halts.failed⟩

theorem Halts.beside (halts : Halts Expands generator picker agenda applied node before fault final)
    (others : List Symbol) :
    Halts Expands generator picker ⟨agenda.waiting ++ others, agenda.progress⟩ applied node before
      fault final := by
  obtain ⟨waiting, works⟩ := halts.reached
  exact ⟨⟨waiting ++ others, works.beside others⟩, halts.nonterminal, halts.failed⟩

/-- Either there is a result, or the run on these symbols halts. -/
def Ends {α : Type} (generator : Generator) (picker : Picker σ) (action : Growth σ α)
    (form : List Symbol) (start : Progress σ) : Prop :=
  (∃ value final, action.run start = (.ok value, final)) ∨
    ∃ fault final applied node before, action.run start = (.error fault, final) ∧
      Halts (generator.Applies picker) generator picker ⟨form, start⟩ applied node before fault final

variable (prepared : generator.Prepared)

include prepared

theorem Prepared.grow_all_ends {height : Nat}
    (single : ∀ (symbol : Symbol) (start : Progress σ) (least : Nat),
      generator.grammar.Knows symbol → generator.need symbol = some least →
      least + max start.slack 0 ≤ height →
      Ends generator picker (generator.grow picker height symbol) [symbol] start)
    {form : List Symbol} {start : Progress σ} {total : Nat}
    (known : generator.grammar.KnowsAll form) (needed : generator.needAll form = some total)
    (enough : total + max start.slack 0 ≤ height) :
    Ends generator picker (form.mapM (generator.grow picker height)) form start := by
  induction form generalizing start total with
  | nil => exact Or.inl ⟨[], start, rfl⟩
  | cons symbol rest ih =>
      obtain ⟨least, later, headNeed, restNeed, rfl⟩ := need_all_cons_iff.1 needed
      have headKnown := known symbol List.mem_cons_self
      unfold Ends
      rw [List.mapM_cons]
      rcases single symbol start least headKnown headNeed (by omega) with
        ⟨tree, middle, done⟩ | ⟨fault, final, applied, node, before, failed, halts⟩
      · have lower := prepared.slack_after headKnown headNeed done
        have works := (works_of_grow done).beside rest
        have left : later + max middle.slack 0 ≤ height := by omega
        rw [growth_bind_of_ok done]
        rcases ih known.tail restNeed left with
          ⟨others, final, ended⟩ | ⟨fault, final, applied, node, before, failed, halts⟩
        · exact Or.inl ⟨tree :: others, final, growth_bind_of_ok ended⟩
        · exact Or.inr ⟨fault, final, _, node, before, growth_bind_of_error failed,
            halts.after works⟩
      · exact Or.inr ⟨fault, final, _, node, before, growth_bind_of_error failed,
          halts.beside rest⟩

/-- The height is enough when it covers what the symbol needs together with the slack. -/
theorem Prepared.grow_ends {height : Nat} {least : Nat} (known : generator.grammar.Knows symbol)
    (needed : generator.need symbol = some least) (enough : least + max start.slack 0 ≤ height) :
    Ends generator picker (generator.grow picker height symbol) [symbol] start := by
  induction height generalizing symbol start least with
  | zero =>
      cases kind : symbol.isTerminal with
      | true => exact Or.inl ⟨leaf symbol, start, grow_of_terminal kind 0 start⟩
      | false =>
          have member := prepared.whole.nonterminal_known known kind
          obtain ⟨_, _, _, _, same⟩ := prepared.least_alternative member needed
          omega
  | succ height ih =>
      cases kind : symbol.isTerminal with
      | true => exact Or.inl ⟨leaf symbol, start, grow_of_terminal kind (height + 1) start⟩
      | false =>
          have member := prepared.whole.nonterminal_known known kind
          unfold Ends
          rw [grow_of_nonterminal kind]
          rcases run : (generator.expand picker symbol).run start with ⟨fault | production, middle⟩
          · exact Or.inr ⟨fault, middle, _, symbol, start, growth_bind_of_error run,
              ⟨[], .rest _⟩, kind, run⟩
          · obtain ⟨listed, pending, waiting, remaining, reserved, within, exact⟩ :=
              prepared.expand_accounts member needed run
            obtain ⟨among, _, _⟩ := (prepared.mem_alternatives_iff member).1 listed
            have between := Progress.slack_spent remaining reserved
            have covered : pending + max middle.slack 0 ≤ height := by
              by_cases short : start.slack < 0
              · have forced := exact short
                omega
              · have fitting := within (not_lt.1 short)
                omega
            have step : Works (generator.Applies picker) ⟨[symbol], start⟩ [production]
                ⟨production.rhs ++ [], middle⟩ := .expansion kind run (.rest _)
            rw [List.append_nil] at step
            rw [growth_bind_of_ok run]
            rcases prepared.grow_all_ends
                (fun symbol start least known needed enough => ih known needed enough)
                (prepared.whole.body_known among) waiting covered with
              ⟨children, final, done⟩ | ⟨fault, final, applied, node, before, failed, halts⟩
            · exact Or.inl ⟨_, final, growth_bind_of_ok done⟩
            · exact Or.inr ⟨fault, final, _, node, before, growth_bind_of_error failed,
                halts.after step⟩

/-- A tree is returned at the end of the run that applies its productions. If there is none, its run
halts at some node with the fault of the expansion there. -/
theorem Prepared.tree_ends (member : symbol ∈ generator.grammar.nonterminals)
    (derives : generator.grammar.DerivesTokens symbol) (picker : Picker σ) (source : σ) :
    (∃ tree final, generator.tree picker symbol source = (.ok tree, final) ∧
      Works (generator.Applies picker) (generator.outset symbol source) tree.applied ⟨[], final⟩) ∨
    ∃ fault final applied node before, generator.tree picker symbol source = (.error fault, final) ∧
      Halts (generator.Applies picker) generator picker (generator.outset symbol source) applied
        node before fault final := by
  obtain ⟨least, needed⟩ := prepared.need_of_derives (Or.inr member) derives
  have slack := start_slack needed source
  have reach : generator.heightBound symbol =
      max generator.maxExpansions least + generator.grammar.nonterminals.length := by
    rw [heightBound, needed, Option.getD_some]
  have enough : least + max (generator.start symbol source).slack 0 ≤
      generator.heightBound symbol := by omega
  have ends : Ends generator picker (generator.grow picker (generator.heightBound symbol) symbol)
      [symbol] (generator.start symbol source) :=
    prepared.grow_ends (Or.inr member) needed enough
  rw [prepared.tree_run member derives]
  rcases ends with ⟨tree, final, done⟩ | halted
  · exact Or.inl ⟨tree, final, done, works_of_grow done⟩
  · exact Or.inr halted

end Recursion

section Order

/-- All symbols that wait are known and derive some text. -/
def Orderly (generator : Generator) (agenda : Agenda σ) : Prop :=
  ∀ symbol ∈ agenda.waiting, generator.grammar.Knows symbol ∧
    generator.grammar.DerivesTokens symbol

theorem outset_orderly (member : symbol ∈ generator.grammar.nonterminals)
    (derives : generator.grammar.DerivesTokens symbol) (source : σ) :
    generator.Orderly (generator.outset symbol source) := by
  intro part among
  cases List.mem_singleton.1 among
  exact ⟨Or.inr member, derives⟩

variable (prepared : generator.Prepared)

include prepared

theorem Prepared.need_of_orderly {waiting : List Symbol}
    (orderly : generator.Orderly ⟨symbol :: waiting, before⟩)
    (nonterminal : symbol.isTerminal = false) :
    symbol ∈ generator.grammar.nonterminals ∧ ∃ least, generator.need symbol = some least := by
  have head := orderly symbol List.mem_cons_self
  exact ⟨prepared.whole.nonterminal_known head.1 nonterminal,
    prepared.need_of_derives head.1 head.2⟩

theorem Prepared.orderly_after {waiting : List Symbol} {production : Production}
    {after : Progress σ} (orderly : generator.Orderly ⟨symbol :: waiting, before⟩)
    (nonterminal : symbol.isTerminal = false)
    (expanded : generator.Applies picker symbol before production after) :
    generator.Orderly ⟨production.rhs ++ waiting, after⟩ := by
  obtain ⟨member, least, needed⟩ := prepared.need_of_orderly orderly nonterminal
  have listed := (prepared.expand_cases member needed expanded).1
  have alternative := (prepared.mem_alternatives_iff member).1 listed
  intro part among
  rcases List.mem_append.1 among with inside | beside
  · exact ⟨prepared.whole.body_known alternative.1 part inside, alternative.2.2 part inside⟩
  · exact orderly part (List.mem_cons_of_mem symbol beside)

theorem Prepared.works_orderly {agenda ending : Agenda σ}
    (works : Works (generator.Applies picker) agenda applied ending)
    (orderly : generator.Orderly agenda) : generator.Orderly ending := by
  have kept : Works (generator.Applies picker) agenda applied ending ∧ generator.Orderly ending := by
    apply works.relying _ _ orderly
    · intro symbol waiting progress _ orderly part among
      exact orderly part (List.mem_cons_of_mem symbol among)
    · intro symbol waiting before production after nonterminal expanded orderly
      exact ⟨expanded, prepared.orderly_after orderly nonterminal expanded⟩
  exact kept.2

/-- A run of the generator halts at candidates whose weights have no sum, or with the picker. -/
theorem Prepared.halts_why {agenda : Agenda σ} (orderly : generator.Orderly agenda)
    (halts : Halts (generator.Applies picker) generator picker agenda applied node before fault
      final) :
    Overweight generator node before fault final ∨
      Asked generator picker node before (.error fault) final := by
  obtain ⟨waiting, works⟩ := halts.reached
  obtain ⟨member, least, needed⟩ :=
    prepared.need_of_orderly (prepared.works_orderly works orderly) halts.nonterminal
  exact prepared.expand_fails member needed halts.failed

end Order

end Generator

end GrammarKit
