import GrammarKit.Proofs.Follow.Textbook
import GrammarKit.Proofs.Generator.Picks
import GrammarKit.Proofs.Implicit.Language

/-!
# Random trees keep to the FIRST and FOLLOW sets

A subtree stands in a tree between the leaves to its left and those to its right. If the tree is
complete, its root derives these leaves with the root of the subtree between them, however far up
the tree the leaf to the right hangs and however many siblings between yield nothing. So what a
generator returns never begins or goes on in a way that the tables of its grammar rule out.
-/

namespace GrammarKit

set_option autoImplicit false

namespace DerivationTree

/-- The tree `node` stands in another one, with these leaves to its left and to its right. -/
inductive StandsIn (node : DerivationTree) : DerivationTree → List Symbol → List Symbol → Prop where
  | here : StandsIn node node [] []
  | deeper {label : DerivationNode} {child : DerivationTree} {earlier later : List DerivationTree}
      {before after : List Symbol} (inside : StandsIn node child before after) :
      StandsIn node (.node label (earlier ++ child :: later))
        (earlier.flatMap leaves ++ before) (after ++ later.flatMap leaves)

variable {grammar : Grammar} {node tree : DerivationTree} {before after : List Symbol}

/-- What a complete tree says of a subtree and the leaves around it. -/
structure Surrounds (grammar : Grammar) (tree node : DerivationTree)
    (before after : List Symbol) : Prop where
  complete : Complete grammar node
  leaves : tree.leaves = before ++ node.leaves ++ after
  derived : grammar.Derives [tree.root] (before ++ node.root :: after)

/-- The step from a child to its parent, whose other children add their leaves. -/
theorem Surrounds.of_child {production : Production} {child : DerivationTree}
    {earlier later : List DerivationTree} (member : production ∈ grammar.productions)
    (nonterminal : production.lhs.isTerminal = false)
    (body : (earlier ++ child :: later).map root = production.rhs)
    (complete : ∀ sibling ∈ earlier ++ child :: later, Complete grammar sibling)
    (surrounds : Surrounds grammar child node before after) :
    Surrounds grammar (.node ⟨production.lhs, some production⟩ (earlier ++ child :: later)) node
      (earlier.flatMap DerivationTree.leaves ++ before)
      (after ++ later.flatMap DerivationTree.leaves) where
  complete := surrounds.complete
  leaves := by
    rw [leaves_node nonterminal, List.flatMap_append, List.flatMap_cons, surrounds.leaves]
    simp
  derived := by
    have left := derives_all fun sibling among =>
      (complete sibling (List.mem_append_left _ among)).derives
    have right := derives_all fun sibling among =>
      (complete sibling (List.mem_append_right _ (List.mem_cons_of_mem _ among))).derives
    have applied := Grammar.Derives.of_production member
    rw [← body, List.map_append, List.map_cons] at applied
    have around := left.append (surrounds.derived.append right)
    have whole := applied.trans around
    change grammar.Derives [production.lhs] _
    simpa using whole

theorem Complete.surrounds (complete : Complete grammar tree)
    (stands : StandsIn node tree before after) : Surrounds grammar tree node before after := by
  induction stands with
  | here => exact ⟨complete, by simp, .refl⟩
  | @deeper label child earlier later before after _ ih =>
      generalize shape : earlier ++ child :: later = children at complete
      cases complete with
      | token terminal => simp at shape
      | expansion member nonterminal body each =>
          subst shape
          exact .of_child member nonterminal body each (ih (each child (by simp)))

/-- The tables say what the node begins with, and what comes right behind it in a tree of the whole
input. -/
structure Foretold (grammar : Grammar) (firsts : FirstTable) (follows : FollowTable)
    (symbol : Symbol) (node : DerivationTree) (after : List Symbol) : Prop where
  begins : (node.leaves = [] ∧ firsts.isNullable node.root = .ok true) ∨
    ∃ token rest first, node.leaves = token :: rest ∧ firsts.ofSymbol node.root = .ok first ∧
      token.index ∈ first.tokens
  goes_on : symbol = grammar.augmentedStart → ∀ token rest, after = token :: rest →
    ∃ following, follows.ofSymbol node.root = .ok following ∧ token.index ∈ following

section Tables

variable {firsts : FirstTable} {follows : FollowTable} (whole : grammar.WellFormed)
  (complete : Complete grammar tree) (known : grammar.Knows tree.root)

include whole complete known

theorem Complete.leaf_is_terminal {token : Symbol} (among : token ∈ tree.leaves) :
    token ∈ grammar.terminals :=
  whole.terminal_known (complete.leaves_known whole known token among)
    (complete.leaves_are_terminals token among)

theorem Complete.begins (exact : firsts.Exact grammar) :
    (tree.leaves = [] ∧ firsts.isNullable tree.root = .ok true) ∨
      ∃ token rest first, tree.leaves = token :: rest ∧ firsts.ofSymbol tree.root = .ok first ∧
        token.index ∈ first.tokens := by
  have derived := complete.derives
  cases yield : tree.leaves with
  | nil =>
      rw [yield] at derived
      exact Or.inl ⟨rfl, (exact.is_nullable_iff whole known).2 derived⟩
  | cons token rest =>
      rw [yield] at derived
      have terminal := complete.leaf_is_terminal whole known (yield ▸ List.mem_cons_self)
      obtain ⟨first, asked, _, begins, _⟩ := exact.symbol_answer whole known
      exact Or.inr ⟨token, rest, first, rfl, asked, (begins token terminal).2 ⟨rest, derived⟩⟩

theorem Complete.foretold (firstExact : firsts.Exact grammar) (followExact : follows.Exact grammar)
    (stands : StandsIn node tree before after) (nonterminal : node.root.isTerminal = false) :
    Foretold grammar firsts follows tree.root node after := by
  have surrounds := complete.surrounds stands
  have formKnown := surrounds.derived.known whole (.singleton known)
  have nodeKnown := formKnown node.root (by simp)
  refine ⟨surrounds.complete.begins whole nodeKnown firstExact, ?_⟩
  rintro rooted token rest rfl
  have member := whole.nonterminal_known nodeKnown nonterminal
  have among : token ∈ tree.leaves := by
    rw [surrounds.leaves]
    simp
  have terminal := complete.leaf_is_terminal whole known among
  have derived := surrounds.derived
  rw [rooted] at derived
  obtain ⟨following, asked, follows_iff, _⟩ := followExact.answer whole member
  refine ⟨following, asked, (follows_iff token terminal).2 ?_⟩
  exact Or.inl ⟨_, whole.augmented_start_known, before, rest, derived⟩

end Tables

end DerivationTree

namespace Generator

open DerivationTree

variable {generator : Generator}

/-- Whatever a generator returns, the tables of its grammar foretell each nonterminal of the tree
and, in a tree of the whole input, the token right behind it. -/
theorem random_trees_are_foretold {σ : Type} {declarations : Declarations} {variant : Variant}
    {grammar : Grammar} (built : declarations.build variant = .ok grammar)
    {options : GeneratorOptions} {given : Option FirstTable}
    (made : (ofGrammar grammar options given).outcome = .ok generator)
    {symbol : Symbol} (member : symbol ∈ grammar.nonterminals) (picker : Picker σ) (source : σ)
    {tree : DerivationTree} (returned : (generator.tree picker symbol source).1 = .ok tree) :
    ∃ firsts follows, (FirstTable.ofGrammar grammar).outcome = .ok firsts ∧
      (FollowTable.ofGrammar grammar).outcome = .ok follows ∧
      ∀ node before after, StandsIn node tree before after → node.root.isTerminal = false →
        tree.leaves = before ++ node.leaves ++ after ∧
          Foretold grammar firsts follows symbol node after := by
  have whole := Declarations.well_formed_of_build built
  have prepared := prepared_of_grammar whole made
  obtain ⟨_, table, rfl⟩ := of_grammar_eq_ok made
  obtain ⟨complete, rfl, _⟩ := prepared.tree_bounded member (Prod.ext returned rfl)
  obtain ⟨follows, followed, followExact⟩ := FollowTable.of_grammar_outcome whole
  refine ⟨_, follows, FirstTable.of_grammar_outcome whole, followed, ?_⟩
  intro node before after stands nonterminal
  exact ⟨(complete.surrounds stands).leaves,
    complete.foretold whole (Or.inr member) (FirstTable.settled_exact whole) followExact stands
      nonterminal⟩

section Tilde

open Declarations

/-- Below the first of two nonterminals that yield nothing. -/
def skippedNode : DerivationTree :=
  .node ⟨⟨.nonterminal, 1, "~'"⟩, some tildeEco.leading[3]⟩ []

def loopNode : DerivationTree :=
  .node ⟨⟨.nonterminal, 1, "~'"⟩, some tildeEco.leading[2]⟩ [leaf ⟨.terminal, 1, "w"⟩, skippedNode]

def emptyNode : DerivationTree := .node ⟨tildeEco.start, some tildeEco.leading[1]⟩ []

/-- One implicit token in front of an empty input. -/
def skippedTree : DerivationTree :=
  .node ⟨tildeEco.augmentedStart, some tildeEco.startProduction⟩
    [loopNode, emptyNode, leaf tildeEco.eof]

theorem skipped_tree_complete : Complete tildeEco skippedTree := by
  have skipped : Complete tildeEco skippedNode :=
    .expansion (show tildeEco.leading[3] ∈ tildeEco.productions by decide) rfl rfl (by simp)
  have loop : Complete tildeEco loopNode := by
    apply Complete.expansion (show tildeEco.leading[2] ∈ tildeEco.productions by decide) rfl rfl
    intro child among
    rcases List.mem_pair.1 among with rfl | rfl
    · exact .token rfl
    · exact skipped
  have empty : Complete tildeEco emptyNode :=
    .expansion (show tildeEco.leading[1] ∈ tildeEco.productions by decide) rfl rfl (by simp)
  apply Complete.expansion tildeEco.start_production_mem rfl rfl
  intro child among
  simp only [List.mem_cons, List.not_mem_nil, or_false] at among
  rcases among with rfl | rfl | rfl
  · exact loop
  · exact empty
  · exact .token rfl

theorem skipped_stands :
    StandsIn skippedNode skippedTree [⟨.terminal, 1, "w"⟩] [tildeEco.eof] := by
  have inside : StandsIn skippedNode loopNode [⟨.terminal, 1, "w"⟩] [] :=
    @StandsIn.deeper skippedNode _ skippedNode [leaf ⟨.terminal, 1, "w"⟩] [] [] [] .here
  exact @StandsIn.deeper skippedNode _ loopNode [] [emptyNode, leaf tildeEco.eof] _ _ inside

theorem tilde_admitted : Admitted tildeEco {} where
  budget := Int.natCast_nonneg 100
  weights := no_weights
  expansions := by decide +kernel
  tokenCosts := rfl
  costs := by decide +kernel

/-- The end of the input comes right behind a node from which it is two levels and one empty sibling
away. -/
theorem skipped_node_foretold :
    tildeDeclarations.build .eco = .ok tildeEco ∧
      ∃ generator, (ofGrammar tildeEco {} none).outcome = .ok generator ∧
        tildeEco.augmentedStart ∈ tildeEco.nonterminals ∧
        ∃ source, (generator.tree Source.picker tildeEco.augmentedStart source).1 =
            .ok skippedTree ∧
          StandsIn skippedNode skippedTree [⟨.terminal, 1, "w"⟩] [tildeEco.eof] ∧
          ∃ firsts follows following, (FirstTable.ofGrammar tildeEco).outcome = .ok firsts ∧
            (FollowTable.ofGrammar tildeEco).outcome = .ok follows ∧
            firsts.isNullable ⟨.nonterminal, 1, "~'"⟩ = .ok true ∧
            follows.ofSymbol ⟨.nonterminal, 1, "~'"⟩ = .ok following ∧
            tildeEco.eof.index ∈ following := by
  have whole := well_formed_of_build tilde_eco_built
  have made := of_grammar_of_admitted whole tilde_admitted none
  have prepared := prepared_of_grammar whole made
  have member : tildeEco.augmentedStart ∈ tildeEco.nonterminals := by decide
  obtain ⟨least, needed, low⟩ := @Prepared.need_of_tree _ prepared skippedTree member
    skipped_tree_complete
  obtain ⟨_, _, done, _⟩ := @Prepared.places_lead _ prepared
    (productions_nodup_of_build tilde_eco_built) skippedTree member (by decide)
    skipped_tree_complete least rfl needed low _ rfl
  have returned := congrArg Prod.fst done
  obtain ⟨firsts, follows, found, followed, foretold⟩ :=
    random_trees_are_foretold tilde_eco_built made member Source.picker _ returned
  obtain ⟨_, told⟩ := foretold skippedNode _ _ skipped_stands rfl
  obtain ⟨following, listed, inside⟩ := told.goes_on rfl _ _ rfl
  refine ⟨tilde_eco_built, _, made, member, _, returned, skipped_stands, firsts, follows,
    following, found, followed, ?_, listed, inside⟩
  rcases told.begins with ⟨_, vanishes⟩ | ⟨token, rest, _, yield, _⟩
  · exact vanishes
  · cases yield

end Tilde

end Generator

end GrammarKit
