import GrammarKit.Derivation.Complete
import GrammarKit.Grammar.WellFormed

/-!
# Derivations and complete trees

Derivations of a well-formed grammar stay among the symbols of its tables. A derivation that ends
in terminals is summed up by a complete tree for each symbol it started from, so what derives some
finite sequence of terminals is the root of a complete tree, and the other way round.
-/

namespace GrammarKit

set_option autoImplicit false

namespace Grammar

variable {grammar : Grammar}

/-- All symbols of a form are entries of the tables. -/
def KnowsAll (grammar : Grammar) (form : List Symbol) : Prop :=
  ∀ symbol ∈ form, grammar.Knows symbol

theorem KnowsAll.append {left right : List Symbol} (first : grammar.KnowsAll left)
    (second : grammar.KnowsAll right) : grammar.KnowsAll (left ++ right) := by
  intro symbol member
  rcases List.mem_append.1 member with among | among
  · exact first symbol among
  · exact second symbol among

theorem KnowsAll.left {left right : List Symbol} (both : grammar.KnowsAll (left ++ right)) :
    grammar.KnowsAll left := fun symbol member => both symbol (List.mem_append_left right member)

theorem KnowsAll.right {left right : List Symbol} (both : grammar.KnowsAll (left ++ right)) :
    grammar.KnowsAll right := fun symbol member => both symbol (List.mem_append_right left member)

theorem KnowsAll.tail {symbol : Symbol} {rest : List Symbol}
    (whole : grammar.KnowsAll (symbol :: rest)) : grammar.KnowsAll rest :=
  fun other member => whole other (by simp [member])

theorem KnowsAll.singleton {symbol : Symbol} (known : grammar.Knows symbol) :
    grammar.KnowsAll [symbol] := by
  intro other among
  obtain rfl := List.mem_singleton.1 among
  exact known

theorem WellFormed.body_known (whole : grammar.WellFormed) {production : Production}
    (member : production ∈ grammar.productions) : grammar.KnowsAll production.rhs :=
  whole.bodies_known production member

theorem Step.known (whole : grammar.WellFormed) {form next : List Symbol}
    (step : grammar.Step form next) (known : grammar.KnowsAll form) : grammar.KnowsAll next := by
  cases step with
  | expand member before after =>
      exact (known.left.append (whole.body_known member)).append known.right.tail

theorem Derives.known (whole : grammar.WellFormed) {form final : List Symbol}
    (derivation : grammar.Derives form final) (known : grammar.KnowsAll form) :
    grammar.KnowsAll final := by
  induction derivation with
  | refl => exact known
  | tail _ last ih => exact last.known whole ih

theorem Derives.behind {form final : List Symbol} (derivation : grammar.Derives form final)
    (before : List Symbol) : grammar.Derives (before ++ form) (before ++ final) :=
  Derives.append .refl derivation

theorem Derives.ahead {form final : List Symbol} (derivation : grammar.Derives form final)
    (after : List Symbol) : grammar.Derives (form ++ after) (final ++ after) :=
  Derives.append derivation .refl

theorem Derives.replace {form before after middle : List Symbol} {symbol : Symbol}
    (derivation : grammar.Derives form (before ++ symbol :: after))
    (later : grammar.Derives [symbol] middle) :
    grammar.Derives form (before ++ (middle ++ after)) :=
  derivation.trans ((later.ahead after).behind before)

theorem Derives.head {form next final : List Symbol} (first : grammar.Step form next)
    (later : grammar.Derives next final) : grammar.Derives form final :=
  (Derives.single first).trans later

theorem Derives.from_first {final : List Symbol} {motive : List Symbol → Prop} (last : motive final)
    (first : ∀ form next, grammar.Step form next → motive next → motive form)
    {form : List Symbol} (derivation : grammar.Derives form final) : motive form := by
  induction derivation with
  | refl => exact last
  | tail _ step ih => exact ih (first _ _ step last)

theorem Step.of_symbol {symbol : Symbol} {next : List Symbol} (step : grammar.Step [symbol] next) :
    ∃ production ∈ grammar.productions, production.lhs = symbol ∧ next = production.rhs := by
  generalize shape : [symbol] = form at step
  cases step with
  | @expand production member before after =>
      rcases List.append_eq_singleton_iff.1 shape.symm with ⟨rfl, single⟩ | ⟨_, none⟩
      · rw [List.cons.injEq] at single
        rcases single with ⟨rfl, rfl⟩
        exact ⟨production, member, rfl, by simp⟩
      · cases none

theorem Derives.of_symbol {symbol : Symbol} {final : List Symbol}
    (derivation : grammar.Derives [symbol] final) :
    final = [symbol] ∨ ∃ production ∈ grammar.productions, production.lhs = symbol ∧
      grammar.Derives production.rhs final := by
  induction derivation with
  | refl => exact Or.inl rfl
  | tail _ last ih =>
      right
      rcases ih with rfl | ⟨production, member, head, later⟩
      · obtain ⟨production, member, head, rfl⟩ := last.of_symbol
        exact ⟨production, member, head, .refl⟩
      · exact ⟨production, member, head, .tail later last⟩

theorem Step.of_append {left right next : List Symbol} (step : grammar.Step (left ++ right) next) :
    (∃ changed, grammar.Step left changed ∧ next = changed ++ right) ∨
      ∃ changed, grammar.Step right changed ∧ next = left ++ changed := by
  generalize shape : left ++ right = form at step
  cases step with
  | @expand production member before after =>
      rcases List.append_eq_append_iff.1 shape with ⟨further, rfl, rfl⟩ | ⟨front, rfl, later⟩
      · exact Or.inr ⟨_, .expand member further after, by simp⟩
      · cases front with
        | nil =>
            rw [List.nil_append] at later
            subst later
            exact Or.inr ⟨_, .expand member [] after, by simp⟩
        | cons head front =>
            rw [List.cons_append, List.cons.injEq] at later
            rcases later with ⟨rfl, rfl⟩
            exact Or.inl ⟨_, .expand member before front, by simp⟩

theorem Derives.of_append {left right final : List Symbol}
    (derivation : grammar.Derives (left ++ right) final) :
    ∃ first second, final = first ++ second ∧ grammar.Derives left first ∧
      grammar.Derives right second := by
  induction derivation with
  | refl => exact ⟨left, right, rfl, .refl, .refl⟩
  | tail _ last ih =>
      obtain ⟨first, second, rfl, front, back⟩ := ih
      rcases last.of_append with ⟨changed, step, rfl⟩ | ⟨changed, step, rfl⟩
      · exact ⟨changed, second, rfl, .tail front step, back⟩
      · exact ⟨first, changed, rfl, front, .tail back step⟩

theorem Derives.of_terminal (whole : grammar.WellFormed) {terminal : Symbol} {final : List Symbol}
    (kind : terminal.isTerminal) (derivation : grammar.Derives [terminal] final) :
    final = [terminal] := by
  rcases derivation.of_symbol with same | ⟨production, member, rfl, _⟩
  · exact same
  · rw [whole.nonterminal_kind (whole.heads_known production member)] at kind
    cases kind

/-- The text consists of terminals and is derived from the symbol. -/
def Generates (grammar : Grammar) (symbol : Symbol) (text : List Symbol) : Prop :=
  (∀ token ∈ text, token.isTerminal) ∧ grammar.Derives [symbol] text

/-- The symbol occurs in some form derived from the origin. -/
def Reaches (grammar : Grammar) (origin symbol : Symbol) : Prop :=
  ∃ before after, grammar.Derives [origin] (before ++ symbol :: after)

theorem Reaches.refl (symbol : Symbol) : grammar.Reaches symbol symbol := ⟨[], [], .refl⟩

theorem Reaches.derives_around {origin symbol : Symbol} (reached : grammar.Reaches origin symbol)
    {middle : List Symbol} (derivation : grammar.Derives [symbol] middle) :
    ∃ before after, grammar.Derives [origin] (before ++ (middle ++ after)) := by
  obtain ⟨before, after, earlier⟩ := reached
  exact ⟨before, after, earlier.replace derivation⟩

theorem Reaches.trans {origin middle symbol : Symbol} (first : grammar.Reaches origin middle)
    (second : grammar.Reaches middle symbol) : grammar.Reaches origin symbol := by
  obtain ⟨left, right, derivation⟩ := second
  obtain ⟨before, after, whole⟩ := first.derives_around derivation
  exact ⟨before ++ left, right ++ after, by simpa using whole⟩

theorem Reaches.of_production {production : Production} (member : production ∈ grammar.productions)
    {symbol : Symbol} (occurs : symbol ∈ production.rhs) :
    grammar.Reaches production.lhs symbol := by
  obtain ⟨before, after, shape⟩ := List.append_of_mem occurs
  exact ⟨before, after, shape ▸ Derives.of_production member⟩

end Grammar

namespace DerivationTree

variable {grammar : Grammar}

/-- The trees hang below the symbols of a form and are complete. -/
structure Forest (grammar : Grammar) (form : List Symbol) (trees : List DerivationTree) : Prop where
  roots : trees.map root = form
  complete : ∀ tree ∈ trees, Complete grammar tree

namespace Forest

theorem nil : Forest grammar [] [] := ⟨rfl, by simp⟩

theorem root_mem {form : List Symbol} {trees : List DerivationTree}
    (forest : Forest grammar form trees) {tree : DerivationTree} (member : tree ∈ trees) :
    tree.root ∈ form := by
  rw [← forest.roots]
  exact List.mem_map_of_mem member

theorem cons {tree : DerivationTree} {form : List Symbol} {trees : List DerivationTree}
    (first : Complete grammar tree) (rest : Forest grammar form trees) :
    Forest grammar (tree.root :: form) (tree :: trees) := by
  refine ⟨by rw [List.map_cons, rest.roots], ?_⟩
  intro other member
  rcases List.mem_cons.1 member with rfl | among
  · exact first
  · exact rest.complete other among

theorem append {left right : List Symbol} {first second : List DerivationTree}
    (start : Forest grammar left first) (rest : Forest grammar right second) :
    Forest grammar (left ++ right) (first ++ second) := by
  refine ⟨by rw [List.map_append, start.roots, rest.roots], ?_⟩
  intro tree member
  rcases List.mem_append.1 member with among | among
  · exact start.complete tree among
  · exact rest.complete tree among

theorem of_append {left right : List Symbol} {trees : List DerivationTree}
    (forest : Forest grammar (left ++ right) trees) :
    ∃ first second, trees = first ++ second ∧ Forest grammar left first ∧
      Forest grammar right second := by
  obtain ⟨first, second, rfl, start, rest⟩ := List.map_eq_append_iff.1 forest.roots
  refine ⟨first, second, rfl, ⟨start, ?_⟩, ⟨rest, ?_⟩⟩
  · exact fun tree member => forest.complete tree (List.mem_append_left second member)
  · exact fun tree member => forest.complete tree (List.mem_append_right first member)

theorem of_cons {symbol : Symbol} {form : List Symbol} {trees : List DerivationTree}
    (forest : Forest grammar (symbol :: form) trees) :
    ∃ tree rest, trees = tree :: rest ∧ tree.root = symbol ∧ Complete grammar tree ∧
      Forest grammar form rest := by
  obtain ⟨tree, rest, rfl, start, others⟩ := List.map_eq_cons_iff.1 forest.roots
  refine ⟨tree, rest, rfl, start, forest.complete tree (by simp), ⟨others, ?_⟩⟩
  exact fun other member => forest.complete other (by simp [member])

theorem of_terminals {tokens : List Symbol} (terminals : ∀ token ∈ tokens, token.isTerminal) :
    Forest grammar tokens (tokens.map leaf) := by
  refine ⟨by simp [Function.comp_def, leaf, root, RoseTree.label], ?_⟩
  intro tree member
  obtain ⟨token, among, rfl⟩ := List.mem_map.1 member
  exact .token (terminals token among)

end Forest

theorem Forest.expansion (whole : grammar.WellFormed) {production : Production}
    {children : List DerivationTree} (member : production ∈ grammar.productions)
    (forest : Forest grammar production.rhs children) :
    Complete grammar (.node ⟨production.lhs, some production⟩ children) :=
  .expansion member (whole.nonterminal_kind (whole.heads_known production member)) forest.roots
    forest.complete

/-- A step is undone by a forest with the same leaves, which has a node for the production and keeps
all others. -/
theorem forest_of_step (whole : grammar.WellFormed) {form next : List Symbol}
    (step : grammar.Step form next) {trees : List DerivationTree}
    (forest : Forest grammar next trees) :
    ∃ earlier, Forest grammar form earlier ∧
      earlier.flatMap leaves = trees.flatMap leaves ∧
      trees.flatMap RoseTree.preorder ⊆ earlier.flatMap RoseTree.preorder := by
  cases step with
  | @expand production member before after =>
      obtain ⟨front, right, rfl, frontForest, rightForest⟩ := forest.of_append
      obtain ⟨left, children, rfl, leftForest, bodyForest⟩ := frontForest.of_append
      have node := bodyForest.expansion whole member
      have nonterminal := whole.nonterminal_kind (whole.heads_known production member)
      refine ⟨left ++ .node ⟨production.lhs, some production⟩ children :: right, ?_, ?_, ?_⟩
      · exact leftForest.append (Forest.cons node rightForest)
      · simp [leaves_node nonterminal, List.append_assoc]
      · intro entry among
        rw [List.flatMap_append, List.flatMap_append, List.append_assoc] at among
        rw [List.flatMap_append, List.flatMap_cons, RoseTree.preorder_node]
        simp only [List.mem_append, List.mem_cons] at among ⊢
        rcases among with front | inside | back
        · exact Or.inl front
        · exact Or.inr (Or.inl (Or.inr inside))
        · exact Or.inr (Or.inr back)

theorem leaves_of_tokens {tokens : List Symbol} (terminals : ∀ token ∈ tokens, token.isTerminal) :
    (tokens.map leaf).flatMap leaves = tokens := by
  induction tokens with
  | nil => rfl
  | cons token rest ih =>
      rw [List.map_cons, List.flatMap_cons, leaves_leaf (terminals token (by simp)),
        ih (fun other member => terminals other (by simp [member]))]
      rfl

/-- A derivation of terminals is summed up by complete trees. -/
theorem forest_of_derivation (whole : grammar.WellFormed) {form tokens : List Symbol}
    (derivation : grammar.Derives form tokens)
    (terminals : ∀ token ∈ tokens, token.isTerminal) :
    ∃ trees, Forest grammar form trees ∧ trees.flatMap leaves = tokens := by
  apply derivation.from_first
    (motive := fun form => ∃ trees, Forest grammar form trees ∧ trees.flatMap leaves = tokens)
  · exact ⟨tokens.map leaf, Forest.of_terminals terminals, leaves_of_tokens terminals⟩
  · intro form next step summed
    obtain ⟨trees, forest, yield⟩ := summed
    obtain ⟨earlier, earlierForest, same, _⟩ := forest_of_step whole step forest
    exact ⟨earlier, earlierForest, same.trans yield⟩

theorem tree_of_derivation (whole : grammar.WellFormed) {symbol : Symbol} {tokens : List Symbol}
    (derivation : grammar.Derives [symbol] tokens)
    (terminals : ∀ token ∈ tokens, token.isTerminal) :
    ∃ tree, Complete grammar tree ∧ tree.root = symbol ∧ tree.leaves = tokens := by
  obtain ⟨trees, forest, yield⟩ := forest_of_derivation whole derivation terminals
  obtain ⟨tree, rest, rfl, start, complete, others⟩ := forest.of_cons
  obtain rfl : rest = [] := List.map_eq_nil_iff.1 others.roots
  exact ⟨tree, complete, start, by simpa using yield⟩

theorem derives_tokens_iff (whole : grammar.WellFormed) {symbol : Symbol} :
    grammar.DerivesTokens symbol ↔ ∃ tree, Complete grammar tree ∧ tree.root = symbol := by
  constructor
  · intro derived
    rcases derived with ⟨tokens, terminals, derivation⟩
    obtain ⟨tree, complete, start, _⟩ := tree_of_derivation whole derivation terminals
    exact ⟨tree, complete, start⟩
  · intro summed
    rcases summed with ⟨tree, complete, rfl⟩
    exact ⟨tree.leaves, complete.leaves_are_terminals, complete.derives⟩

theorem Complete.leaves_known {tree : DerivationTree} (complete : Complete grammar tree)
    (whole : grammar.WellFormed) (known : grammar.Knows tree.root) :
    grammar.KnowsAll tree.leaves := by
  exact complete.derives.known whole (.singleton known)

end DerivationTree

end GrammarKit
