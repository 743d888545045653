import GrammarKit.Proofs.Cost.DeclaredTower
import GrammarKit.Proofs.Generator.Agenda
import GrammarKit.Proofs.Generator.Cheapest

/-!
# Random trees are sound and bounded

A generator made for a built grammar returns a complete tree of every nonterminal that derives a
finite sequence, whatever its picker picks. The tree has no more expansions than the budget allows
or the nonterminal needs. There are two ways to fail. The sums may overflow before there is a
generator, and a run may come to candidates whose weights have no sum, which takes whole numbers
beyond all doubles.
-/

namespace GrammarKit

set_option autoImplicit false

namespace DerivationTree

variable {grammar : Grammar}

/-- The terminals of a tree, node by node from the root down and from left to right. -/
def frontier (tree : DerivationTree) : List Symbol :=
  (tree.preorder.map fun entry => entry.1.symbol).filter Symbol.isTerminal

theorem frontier_leaf {symbol : Symbol} (terminal : symbol.isTerminal) :
    (leaf symbol).frontier = [symbol] := by
  rw [frontier, leaf, RoseTree.preorder_node]
  simp [terminal]

theorem frontier_node {symbol : Symbol} {production : Option Production}
    {children : List DerivationTree} (nonterminal : symbol.isTerminal = false) :
    frontier (.node ⟨symbol, production⟩ children) = children.flatMap frontier := by
  rw [frontier, RoseTree.preorder_node]
  simp only [List.map_cons, nonterminal, Bool.false_eq_true, not_false_eq_true,
    List.filter_cons_of_neg, List.map_flatMap, List.filter_flatMap]
  rfl

/-- No terminal of a complete tree has anything below it, so that its leaves are its terminals. -/
theorem Complete.leaves_eq_frontier {tree : DerivationTree} (complete : Complete grammar tree) :
    tree.leaves = tree.frontier := by
  induction complete with
  | token terminal => rw [leaves_leaf terminal, frontier_leaf terminal]
  | expansion _ nonterminal _ _ ih =>
      rw [leaves_node nonterminal, frontier_node nonterminal]
      exact List.flatMap_congr ih

theorem Complete.fruitful {tree : DerivationTree} (complete : Complete grammar tree) :
    ∀ entry ∈ tree.preorder, ∀ production, entry.1.production = some production →
      ∀ part ∈ production.rhs, grammar.DerivesTokens part := by
  induction complete with
  | token _ =>
      intro entry among production applied
      obtain rfl := List.mem_singleton.1 among
      cases applied
  | expansion _ _ body complete ih =>
      intro entry among
      rw [RoseTree.preorder_node] at among
      rcases List.mem_cons.1 among with rfl | below
      · intro production applied part occurs
        cases applied
        rw [← body] at occurs
        obtain ⟨child, inside, rfl⟩ := List.mem_map.1 occurs
        have whole := complete child inside
        exact ⟨child.leaves, whole.leaves_are_terminals, whole.derives⟩
      · obtain ⟨child, inside, found⟩ := List.mem_flatMap.1 below
        exact ih child inside entry found

/-- A tree as a generator with this budget promises it. Its nodes apply productions of their own
symbols, and none of these has a symbol that derives no finite sequence. -/
structure Promised (grammar : Grammar) (symbol : Symbol) (budget : Nat) (tree : DerivationTree) :
    Prop where
  root : tree.root = symbol
  complete : Complete grammar tree
  fruitful : ∀ entry ∈ tree.preorder, ∀ production, entry.1.production = some production →
    ∀ part ∈ production.rhs, grammar.DerivesTokens part
  frontier : tree.leaves = tree.frontier
  derived : grammar.Derives [symbol] tree.leaves
  bounded : ∃ least, grammar.LeastExpansions symbol least ∧
    tree.expansionCount ≤ max budget least

end DerivationTree

namespace Generator

open DerivationTree Grammar

variable {generator : Generator} {symbol : Symbol} {σ : Type} {picker : Picker σ}

/-- A run halts before it asks for one of the candidates at some node, as their weights have no
sum. -/
def HaltsUnsummed (generator : Generator) (picker : Picker σ) (symbol : Symbol) (source : σ) :
    Prop :=
  ∃ final applied node before,
    generator.tree picker symbol source = (.error .numberTooLarge, final) ∧
      Halts (generator.Applies picker) generator picker (generator.outset symbol source) applied
        node before .numberTooLarge final ∧
      Overweight generator node before .numberTooLarge final

theorem not_halts_unsummed {source : σ}
    (summed : ∀ candidates, ¬ generator.Unsummed candidates) :
    ¬ generator.HaltsUnsummed picker symbol source := by
  intro halted
  rcases halted with ⟨_, _, node, before, _, _, heavy⟩
  exact summed (generator.candidatesAt node before) heavy.unsummed

/-- A picker that serves is no reason to halt, so that only the weights are left as one. -/
theorem Prepared.tree_served (prepared : generator.Prepared)
    (member : symbol ∈ generator.grammar.nonterminals)
    (derives : generator.grammar.DerivesTokens symbol) (served : generator.ServedBy picker)
    (source : σ) :
    (∃ tree final, generator.tree picker symbol source = (.ok tree, final) ∧
      Works (generator.Applies picker) (generator.outset symbol source) tree.applied ⟨[], final⟩) ∨
    generator.HaltsUnsummed picker symbol source := by
  rcases prepared.tree_ends member derives picker source with
    returned | ⟨fault, final, applied, node, before, failed, halts⟩
  · exact Or.inl returned
  · right
    rcases prepared.halts_why (outset_orderly member derives source) halts with
      heavy | ⟨nonempty, weights, choice, weighed, picked, refused, _⟩
    · cases heavy.large
      exact ⟨final, applied, node, before, failed, halts, heavy⟩
    · obtain ⟨place, pointed⟩ := served node _ weights weighed nonempty before.source
      unfold candidatesAt at picked
      rw [picked] at pointed
      cases pointed
      cases refused

section Main

/-- A generator returns a promised tree, at the end of the run that applies its productions, or the
run halts at candidates whose weights have no sum, which no row of doubles is. Before that, there is
a generator unless the sums overflow. -/
theorem random_trees_are_sound {declarations : Declarations} {variant : Variant}
    {grammar : Grammar} (built : declarations.build variant = .ok grammar) :
    (∀ options, InOrder grammar options → MadeUnlessOverflow grammar options) ∧
    ∀ options firsts generator, (ofGrammar grammar options firsts).outcome = .ok generator →
      ∀ symbol ∈ grammar.nonterminals, grammar.DerivesTokens symbol →
        ∀ {σ : Type} (picker : Picker σ), generator.ServedBy picker → ∀ source,
          ((∃ tree final, generator.tree picker symbol source = (.ok tree, final) ∧
              Works (generator.Applies picker) (generator.outset symbol source) tree.applied
                ⟨[], final⟩ ∧
              Promised grammar symbol options.maxExpansions.toNat tree) ∨
            generator.HaltsUnsummed picker symbol source) ∧
          ((∀ entry ∈ options.weights.entries, ∃ value, entry.2 = .real value) →
            ∃ tree, (generator.tree picker symbol source).1 = .ok tree ∧
              Promised grammar symbol options.maxExpansions.toNat tree) := by
  have whole := Declarations.well_formed_of_build built
  refine ⟨fun _ ordered => made_unless_overflow whole ordered, ?_⟩
  intro options firsts generator made symbol member derives σ picker served source
  have prepared := prepared_of_grammar whole made
  obtain ⟨_, table, rfl⟩ := of_grammar_eq_ok made
  have promised : ∀ tree final, (equipped grammar options table).tree picker symbol source =
      (.ok tree, final) → Promised grammar symbol options.maxExpansions.toNat tree := by
    intro tree final done
    obtain ⟨complete, same, bounded⟩ := prepared.tree_bounded member done
    exact ⟨same, complete, complete.fruitful, complete.leaves_eq_frontier,
      same ▸ complete.derives, bounded⟩
  have either := prepared.tree_served member derives served source
  constructor
  · rcases either with ⟨tree, final, done, works⟩ | halted
    · exact Or.inl ⟨tree, final, done, works, promised tree final done⟩
    · exact Or.inr halted
  · intro reals
    rcases either with ⟨tree, final, done, _⟩ | halted
    · exact ⟨tree, by rw [done], promised tree final done⟩
    · exact absurd halted (not_halts_unsummed (not_unsummed_of_reals reals))

end Main

section Choice

/-- Two tokens to choose from. -/
def choiceDeclarations : Declarations where
  rules := [⟨"S", [⟨[.token "a"], none⟩, ⟨[.token "b"], none⟩]⟩]
  tokens := ["a", "b"]

def choice : Grammar where
  variant := .plain
  tokens := [⟨.terminal, 0, "a"⟩, ⟨.terminal, 1, "b"⟩]
  eof := ⟨.terminal, 2, "$"⟩
  nonterminals := [⟨.nonterminal, 0, "S"⟩, ⟨.nonterminal, 1, "S'"⟩]
  leading := [
    ⟨0, ⟨.nonterminal, 0, "S"⟩, [⟨.terminal, 0, "a"⟩], none⟩,
    ⟨1, ⟨.nonterminal, 0, "S"⟩, [⟨.terminal, 1, "b"⟩], none⟩]
  startProduction := ⟨2, ⟨.nonterminal, 1, "S'"⟩,
    [⟨.nonterminal, 0, "S"⟩, ⟨.terminal, 2, "$"⟩], none⟩
  start := ⟨.nonterminal, 0, "S"⟩
  implicitRule := none
  precedences := ∅
  errorTexts := ∅

theorem choice_built : choiceDeclarations.build .plain = .ok choice := by
  rfl

theorem choice_productive : choice.DerivesTokens choice.start := by
  have listed : choice.leading[0] ∈ choice.productions := by decide
  refine ⟨[⟨.terminal, 0, "a"⟩], ?_, Grammar.Derives.of_production listed⟩
  intro token among
  obtain rfl := List.mem_singleton.1 among
  rfl

theorem choice_counted : (item? choice.expansions choice.start.index).join = some 1 := by
  decide

theorem choice_least : choice.LeastExpansions choice.start 1 := by
  have whole := Declarations.well_formed_of_build choice_built
  exact Grammar.least_of_expansions_entry whole (by decide) choice_counted

theorem choice_costs_checked : choice.checkCosts {} = .ok () := by
  decide +kernel

theorem choice_admitted {weights : Register Int Weight}
    (allowed : ∀ entry ∈ weights.entries, entry.2.isNegative = false) :
    Admitted choice { weights := weights } where
  budget := Int.natCast_nonneg 100
  weights := allowed
  expansions := rfl
  tokenCosts := rfl
  costs := choice_costs_checked

/-- Always the first candidate. -/
def firstPicker : Picker Unit := ⟨fun _ nonempty _ source => (.ok ⟨0, nonempty⟩, source)⟩

theorem first_picker_picks (size : Nat) (nonempty : 0 < size) (weights : Option (List Weight))
    (source : Unit) :
    ∃ place, (firstPicker.pick size nonempty weights source).1 = .ok place := ⟨_, rfl⟩

theorem no_weights (entry : Int × Weight) (absent : entry ∈ (∅ : Register Int Weight).entries) :
    entry.2.isNegative = false := by
  cases absent

/-- The picker is the one of the random numbers, seeded as it is by default. -/
theorem random_tree_of_choice :
    choiceDeclarations.build .plain = .ok choice ∧ InOrder choice {} ∧
      MadeUnlessOverflow choice {} ∧ choice.start ∈ choice.nonterminals ∧
      choice.DerivesTokens choice.start ∧
      ∃ generator, (ofGrammar choice {} none).outcome = .ok generator ∧
        generator.ServedBy Source.picker ∧
        ∃ tree, (generator.tree Source.picker choice.start generator.ownSource).1 = .ok tree ∧
          Promised choice choice.start 100 tree := by
  have ordered := defaults_in_order choice
  have member : choice.start ∈ choice.nonterminals := by decide
  have made := of_grammar_of_admitted (Declarations.well_formed_of_build choice_built)
    (choice_admitted no_weights) none
  have sound := random_trees_are_sound choice_built
  have served : (equipped choice {} (FirstTable.settled choice).1).ServedBy Source.picker :=
    served_of_unweighted rfl
  refine ⟨choice_built, ordered, sound.1 {} ordered, member, choice_productive, _, made, served, ?_⟩
  apply (sound.2 {} none _ made choice.start member choice_productive Source.picker served _).2
  intro entry absent
  cases absent

/-- A whole number as the weight of the first production, beside the standard weight. -/
def heavyWeights (value : Int) : Register Int Weight := ⟨[(0, .whole value)], by simp⟩

theorem heavy_weights_allowed {value : Int} (natural : 0 ≤ value) :
    ∀ entry ∈ (heavyWeights value).entries, entry.2.isNegative = false := by
  intro entry among
  rw [List.mem_singleton.1 among]
  exact decide_eq_false (not_lt.2 natural)

def heavyGenerator (value : Int) (table : FirstTable) : Generator :=
  equipped choice { weights := heavyWeights value } table

theorem run_of_heavy_weights {value : Int} (beyond : fitsDouble value = false)
    (table : FirstTable) :
    ∃ final, (heavyGenerator value table).tree firstPicker choice.start () =
      (.error .numberTooLarge, final) ∧ final.draws = [] := by
  have whole := Declarations.well_formed_of_build choice_built
  have prepared : (heavyGenerator value table).Prepared := equipped_prepared whole table
  have member : choice.start ∈ choice.nonterminals := by decide
  have needed : (heavyGenerator value table).need choice.start = some 1 :=
    (prepared.need_of_nonterminal rfl).trans choice_counted
  have slack : ((heavyGenerator value table).start choice.start ()).slack = 99 :=
    start_slack needed ()
  have height : (heavyGenerator value table).heightBound choice.start = 101 + 1 := by
    rw [heightBound, needed]
    rfl
  have offered : (heavyGenerator value table).offered choice.start
      ((heavyGenerator value table).start choice.start ()).slack 1 = choice.leading := by
    rw [slack]
    rfl
  have unweighed : (heavyGenerator value table).weightsFor choice.leading =
      .error .numberTooLarge := by
    have unsummed := Weight.total_beside_real beyond 1.0
    change (require (Weight.total? [.whole value, .real 1.0]) .numberTooLarge >>= _) = _
    rw [unsummed]
    rfl
  rw [← offered] at unweighed
  have enough : 0 ≤ ((heavyGenerator value table).start choice.start ()).slack := by omega
  have nonempty := prepared.offered_nonempty member needed enough
  have failed := expand_undrawn firstPicker needed nonempty (draw_run_of_fault nonempty unweighed)
  refine ⟨((heavyGenerator value table).start choice.start ()).eased 1, ?_, rfl⟩
  rw [prepared.tree_run member choice_productive, height, grow_of_nonterminal rfl,
    growth_bind_of_error failed]

theorem tree_of_heavy_weights {value : Int} (beyond : fitsDouble value = false)
    (table : FirstTable) :
    ((heavyGenerator value table).tree firstPicker choice.start ()).1 =
      .error .numberTooLarge := by
  obtain ⟨final, failed, _⟩ := run_of_heavy_weights beyond table
  rw [failed]

/-- With the smallest whole number beyond all doubles for a weight nothing is picked and no tree
grows, although the symbol derives a finite sequence and the picker always picks. For the ground
floor of a high tower there is not even a generator. -/
theorem no_tree_with_heavy_weights :
    (choiceDeclarations.build .plain = .ok choice ∧ choice.start ∈ choice.nonterminals ∧
      choice.DerivesTokens choice.start ∧
      (∀ entry ∈ (heavyWeights doubleLimit).entries, entry.2.isNegative = false) ∧
      (∀ size nonempty weights source,
        ∃ place, (firstPicker.pick size nonempty weights source).1 = .ok place) ∧
      ∃ generator,
        (ofGrammar choice { weights := heavyWeights doubleLimit } none).outcome = .ok generator ∧
          (generator.tree firstPicker choice.start ()).1 = .error .numberTooLarge) ∧
    (towerDeclarations 1023).build .plain = .ok (declaredTower 1023) ∧
      floor 0 ∈ (declaredTower 1023).nonterminals ∧
      (declaredTower 1023).DerivesTokens (floor 0) ∧ InOrder (declaredTower 1023) {} ∧
      (ofGrammar (declaredTower 1023) {} none).outcome = .error .numberTooLarge := by
  have natural : (0 : Int) ≤ doubleLimit := Int.natCast_nonneg doubleLimit
  have allowed := heavy_weights_allowed natural
  have made := of_grammar_of_admitted (Declarations.well_formed_of_build choice_built)
    (choice_admitted allowed) none
  refine ⟨?_, ground_without_generator⟩
  exact ⟨choice_built, by decide, choice_productive, allowed, first_picker_picks, _, made,
    tree_of_heavy_weights Weight.limit_beyond _⟩

end Choice

end Generator

end GrammarKit
