import GrammarKit.Proofs.Generator.Sound

/-!
# Trees and picks

While there is slack, each expansion asks for one pick, and the production picked is one of distinct
candidates. So a tree tells the picks that lead to it. Conversely, of a tree that fits into the
slack every production is among the candidates when its turn comes: what is pending needs no more
expansions than the rest of the tree has. Hence the trees within a sufficient budget and the rows of
picks correspond to each other one by one.
-/

namespace GrammarKit

set_option autoImplicit false

open DerivationTree Grammar

/-- The places that a script points to, pick by pick. -/
def steer (picks : List Int) : List Draw → List Nat
  | [] => []
  | draw :: draws =>
      (picks.headD 0 % draw.candidates.length).toNat :: steer picks.tail draws

theorem length_steer (picks : List Int) (draws : List Draw) :
    (steer picks draws).length = draws.length := by
  induction draws generalizing picks with
  | nil => rfl
  | cons draw draws ih => rw [steer, List.length_cons, ih, List.length_cons]

theorem steer_append (picks : List Int) (first second : List Draw) :
    steer picks (first ++ second) =
      steer picks first ++ steer (picks.drop first.length) second := by
  induction first generalizing picks with
  | nil => rfl
  | cons draw draws ih =>
      rw [List.cons_append, steer, ih, steer, List.cons_append, List.length_cons, List.drop_tail,
        Nat.add_comm]

theorem place_itself {place size : Nat} (inside : place < size) :
    ((place : Int) % size).toNat = place := by
  rw [Int.emod_eq_of_lt (by omega) (by omega)]
  rfl

theorem steer_of_in_range {picks : List Nat} {draws : List Draw}
    (inRange : List.Forall₂ (fun pick draw => pick < draw.candidates.length) picks draws) :
    steer (picks.map Int.ofNat) draws = picks := by
  induction inRange with
  | nil => rfl
  | cons inside _ ih =>
      rw [List.map_cons, steer]
      exact congrArg₂ List.cons (place_itself inside) ih

theorem steer_in_range (picks : List Int) {draws : List Draw}
    (nonempty : ∀ draw ∈ draws, 0 < draw.candidates.length) :
    List.Forall₂ (fun pick draw => pick < draw.candidates.length) (steer picks draws) draws := by
  induction draws generalizing picks with
  | nil => exact .nil
  | cons draw draws ih =>
      have size := nonempty draw List.mem_cons_self
      have low := Int.emod_nonneg (picks.headD 0) (show (draw.candidates.length : Int) ≠ 0 by omega)
      have high := Int.emod_lt_of_pos (picks.headD 0)
        (show (0 : Int) < draw.candidates.length by omega)
      have later := ih picks.tail fun other member => nonempty other (by simp [member])
      apply List.Forall₂.cons _ later
      omega

namespace Source

theorem pick_of_script {size : Nat} {nonempty : 0 < size} {weights : Option (List Weight)}
    {picks : List Int} {choice : Fin size} {source : Source}
    (picked : picker.pick size nonempty weights (.scripted picks) = (.ok choice, source)) :
    source = .scripted picks.tail ∧ choice.val = (picks.headD 0 % size).toNat := by
  cases picks with
  | nil =>
      cases picked
      exact ⟨rfl, by simp⟩
  | cons first rest =>
      cases picked
      exact ⟨rfl, rfl⟩

theorem pick_place {size : Nat} (nonempty : 0 < size) (weights : Option (List Weight))
    {place : Nat} (inside : place < size) (rest : List Int) :
    picker.pick size nonempty weights (.scripted ((place : Int) :: rest)) =
      (.ok ⟨place, inside⟩, .scripted rest) := by
  have same : scriptedPick size nonempty place = ⟨place, inside⟩ := Fin.ext (place_itself inside)
  change ((.ok (scriptedPick size nonempty place), .scripted rest) :
    Except Fault (Fin size) × Source) = _
  rw [same]

end Source

namespace Generator

variable {generator : Generator}

mutual

/-- The picks that lead to a tree with this slack at its root. -/
def places (generator : Generator) : DerivationTree → Int → List Nat
  | .node node children, slack =>
      match node.production with
      | none => []
      | some production =>
          let least := (generator.need node.symbol).getD 0
          let pending := (generator.pending production).getD 0
          (generator.offered node.symbol slack least).idxOf production ::
            placesAll generator children (slack + least - 1 - pending)

/-- The picks that lead to trees side by side, with this slack at the first one. -/
def placesAll (generator : Generator) : List DerivationTree → Int → List Nat
  | [], _ => []
  | tree :: rest, slack =>
      places generator tree slack ++
        placesAll generator rest
          (slack + ((generator.need tree.root).getD 0 : Nat) - tree.expansionCount)

end

theorem places_leaf (symbol : Symbol) (slack : Int) :
    generator.places (leaf symbol) slack = [] := by
  simp [leaf, places]

theorem places_node {symbol : Symbol} {production : Production} {children : List DerivationTree}
    {slack : Int} {least pending : Nat} (needed : generator.need symbol = some least)
    (waiting : generator.pending production = some pending) :
    generator.places (.node ⟨symbol, some production⟩ children) slack =
      (generator.offered symbol slack least).idxOf production ::
        generator.placesAll children (slack + least - 1 - pending) := by
  simp [places, needed, waiting]

theorem places_all_cons {tree : DerivationTree} {rest : List DerivationTree} {slack : Int}
    {least : Nat} (needed : generator.need tree.root = some least) :
    generator.placesAll (tree :: rest) slack =
      generator.places tree slack ++
        generator.placesAll rest (slack + least - tree.expansionCount) := by
  simp [placesAll, needed]

theorem offered_nodup (distinct : generator.grammar.productions.Nodup) (symbol : Symbol)
    (slack : Int) (least : Nat) : (generator.offered symbol slack least).Nodup := by
  have grouped : (generator.productionsOf symbol).Nodup := by
    unfold productionsOf
    split
    · exact distinct.filter _
    · exact List.nodup_nil
  exact (grouped.filter _).filter _

/-- What a scripted run leaves behind, when it started with these picks and some slack. -/
structure Scripted (generator : Generator) (picks : List Int) (start final : Progress Source)
    (trees : List DerivationTree) (draws : List Draw) : Prop where
  recorded : final.draws = draws.reverse ++ start.draws
  source : final.source = .scripted (picks.drop draws.length)
  count : draws.length = expansionCountAll trees
  nonempty : ∀ draw ∈ draws, 0 < draw.candidates.length
  steered : steer picks draws = generator.placesAll trees start.slack

theorem Scripted.draws_from_start {picks : List Int} {symbol : Symbol} {source : Source}
    {final : Progress Source} {trees : List DerivationTree} {draws : List Draw}
    (scripted : Scripted generator picks (generator.start symbol source) final trees draws) :
    final.draws.reverse = draws := by
  rw [scripted.recorded, start]
  simp

theorem Scripted.nil {picks : List Int} {start : Progress Source}
    (script : start.source = .scripted picks) : Scripted generator picks start start [] [] where
  recorded := rfl
  source := script
  count := rfl
  nonempty := by simp
  steered := rfl

theorem Scripted.token {picks : List Int} {start final : Progress Source} {symbol : Symbol}
    {rest : List DerivationTree} {draws : List Draw} (terminal : symbol.isTerminal)
    (others : Scripted generator picks start final rest draws) :
    Scripted generator picks start final (leaf symbol :: rest) draws where
  recorded := others.recorded
  source := others.source
  count := by rw [others.count, expansionCountAll, expansion_count_leaf terminal, Nat.zero_add]
  nonempty := others.nonempty
  steered := by
    have free : generator.need (leaf symbol).root = some 0 := need_of_terminal terminal
    rw [others.steered, places_all_cons free, places_leaf, expansion_count_leaf terminal]
    simp

/-- A pick that points to the production of the root, then the picks of the trees below it and those
of the trees beside it. -/
theorem Scripted.expansion {picks : List Int} {start middle after final : Progress Source}
    {symbol : Symbol} {production : Production} {children rest : List DerivationTree}
    {least pending : Nat} {weights : Option (List Weight)} {first second : List Draw}
    (nonterminal : symbol.isTerminal = false) (needed : generator.need symbol = some least)
    (waiting : generator.pending production = some pending)
    (nonempty : 0 < (generator.offered symbol start.slack least).length)
    (pointed : (generator.offered symbol start.slack least).idxOf production =
      (picks.headD 0 % (generator.offered symbol start.slack least).length).toNat)
    (drawn : middle.draws =
      drawOf (generator.offered symbol start.slack least) weights :: start.draws)
    (between : middle.slack = start.slack + least - 1 - pending)
    (onward : after.slack = start.slack + least - (1 + expansionCountAll children : Nat))
    (below : Scripted generator picks.tail middle after children first)
    (others : Scripted generator (picks.tail.drop first.length) after final rest second) :
    Scripted generator picks start final (.node ⟨symbol, some production⟩ children :: rest)
      (drawOf (generator.offered symbol start.slack least) weights :: (first ++ second)) where
  recorded := by
    rw [others.recorded, below.recorded, drawn]
    simp
  source := by
    rw [others.source, List.drop_drop, List.drop_tail, List.length_cons, List.length_append]
  count := by
    rw [List.length_cons, List.length_append, below.count, others.count, expansionCountAll,
      expansion_count_node nonterminal]
    omega
  nonempty := by
    intro draw among
    rcases List.mem_cons.1 among with rfl | later
    · simpa [drawOf] using nonempty
    · rcases List.mem_append.1 later with inside | beside
      · exact below.nonempty draw inside
      · exact others.nonempty draw beside
  steered := by
    rw [steer, steer_append, below.steered, others.steered, places_all_cons needed,
      places_node needed waiting, pointed, between, onward, expansion_count_node nonterminal]
    simp [drawOf]

/-- A scripted run takes one pick for each expansion, and the trees tell which picks. -/
theorem Prepared.grown_scripted (prepared : generator.Prepared)
    (distinct : generator.grammar.productions.Nodup) {start final : Progress Source}
    {trees : List DerivationTree} (grown : Grown generator Source.picker start trees final)
    {picks : List Int} (script : start.source = .scripted picks) (enough : 0 ≤ start.slack)
    (known : generator.grammar.KnowsAll (trees.map root)) {total : Nat}
    (needed : generator.needAll (trees.map root) = some total) :
    ∃ draws, Scripted generator picks start final trees draws := by
  induction grown generalizing picks total with
  | nil start => exact ⟨[], .nil script⟩
  | @token start final symbol rest terminal _ ih =>
      obtain ⟨first, later, headNeed, restNeed, rfl⟩ := need_all_cons_iff.1 needed
      obtain ⟨draws, others⟩ := ih script enough known.tail restNeed
      exact ⟨draws, others.token terminal⟩
  | @expansion start middle after final symbol production children rest nonterminal expanded body
      below _ belowIh othersIh =>
      obtain ⟨least, later, headNeed, restNeed, rfl⟩ := need_all_cons_iff.1 needed
      change generator.need symbol = some least at headNeed
      have member := prepared.whole.nonterminal_known (known symbol List.mem_cons_self) nonterminal
      obtain ⟨listed, pending, waiting, taken⟩ := prepared.expand_cases member headNeed expanded
      obtain ⟨applied, _, _⟩ := (prepared.mem_alternatives_iff member).1 listed
      obtain ⟨bodyKnown, bodyNeed⟩ := prepared.children_need applied body waiting
      rcases taken with ⟨_, fitting, nonempty, weights, place, source, picked, _, same, rfl⟩ |
        ⟨short, _⟩
      · rw [script] at picked
        obtain ⟨rfl, pointed⟩ := Source.pick_of_script picked
        have between := Progress.slack_charged
          (start.drawn (.scripted picks.tail)
            (drawOf (generator.offered symbol start.slack least) weights)) least pending
        rw [Progress.slack_drawn] at between
        have left : 0 ≤ start.slack + least - 1 - pending := by omega
        obtain ⟨first, inside⟩ := belowIh rfl (between ▸ left) bodyKnown bodyNeed
        have spent := (prepared.grown_outcome below bodyKnown bodyNeed).2
        have behind := spent.slack
        have within := spent.within (between ▸ left)
        obtain ⟨second, beside⟩ := othersIh inside.source (by omega) known.tail restNeed
        have position : (generator.offered symbol start.slack least).idxOf production = place := by
          rw [← same]
          exact (offered_nodup distinct symbol start.slack least).idxOf_getElem place place.isLt
        have onward : after.slack =
            start.slack + least - (1 + expansionCountAll children : Nat) := by
          push_cast
          omega
        exact ⟨_, Scripted.expansion nonterminal headNeed waiting nonempty (position.trans pointed)
          rfl between onward inside beside⟩
      · omega

theorem Prepared.expand_scripted (prepared : generator.Prepared)
    (unweighted : generator.weights.isEmpty) {symbol : Symbol}
    (member : symbol ∈ generator.grammar.nonterminals) {least : Nat}
    (needed : generator.need symbol = some least) {start : Progress Source}
    (enough : 0 ≤ start.slack) {production : Production}
    (among : production ∈ generator.offered symbol start.slack least) {pending : Nat}
    (waiting : generator.pending production = some pending) {rest : List Int}
    (script : start.source = .scripted
      (((generator.offered symbol start.slack least).idxOf production : Nat) :: rest)) :
    ∃ middle, (generator.expand Source.picker symbol).run start = (.ok production, middle) ∧
      middle.slack = start.slack + least - 1 - pending ∧ middle.source = .scripted rest := by
  have nonempty := prepared.offered_nonempty member needed enough
  have inside := List.idxOf_lt_length_of_mem among
  have picked := Source.pick_place nonempty none inside rest
  rw [← script] at picked
  have there : (generator.offered symbol start.slack least)[
      (generator.offered symbol start.slack least).idxOf production] = production :=
    List.getElem_idxOf inside
  have done := prepared.expand_drawn member needed enough (weights_for_unweighted unweighted _)
    picked (by rw [Fin.getElem_fin, there, waiting])
  rw [Fin.getElem_fin, there] at done
  exact ⟨_, done, Progress.slack_charged _ least pending, rfl⟩

/-- The picks that some trees tell lead to these trees, if there is slack enough for them. -/
theorem Prepared.grown_of_places (prepared : generator.Prepared)
    (distinct : generator.grammar.productions.Nodup) (unweighted : generator.weights.isEmpty)
    {trees : List DerivationTree} {start : Progress Source} {rest : List Int} {total : Nat}
    (complete : ∀ tree ∈ trees, Complete generator.grammar tree)
    (known : generator.grammar.KnowsAll (trees.map root))
    (needed : generator.needAll (trees.map root) = some total) (enough : 0 ≤ start.slack)
    (fits : (expansionCountAll trees : Int) ≤ total + start.slack)
    (script : start.source =
      .scripted ((generator.placesAll trees start.slack).map Int.ofNat ++ rest)) :
    ∃ final, Grown generator Source.picker start trees final := by
  induction trees using RoseTree.row_induction generalizing start rest total with
  | nil => exact ⟨start, .nil start⟩
  | cons node children others childrenIh othersIh =>
      obtain ⟨least, later, headNeed, restNeed, rfl⟩ := need_all_cons_iff.1 needed
      have others_complete : ∀ tree ∈ others, Complete generator.grammar tree :=
        fun tree member => complete tree (by simp [member])
      have beside := prepared.need_all_le known.tail restNeed ⟨rfl, others_complete⟩
      cases complete (.node node children) List.mem_cons_self with
      | @token symbol terminal =>
          have free : generator.need symbol = some 0 := need_of_terminal terminal
          change generator.need symbol = some least at headNeed
          rw [free] at headNeed
          cases headNeed
          change (expansionCountAll (leaf symbol :: others) : Int) ≤ _ at fits
          change start.source = .scripted
            ((generator.placesAll (leaf symbol :: others) start.slack).map Int.ofNat ++
              rest) at script
          rw [expansionCountAll, expansion_count_leaf terminal] at fits
          rw [places_all_cons free, places_leaf, expansion_count_leaf terminal] at script
          obtain ⟨final, grown⟩ := othersIh others_complete known.tail restNeed enough
            (by omega) (by simpa using script)
          exact ⟨final, .token terminal grown⟩
      | @expansion production _ listed nonterminal body below =>
          change generator.need production.lhs = some least at headNeed
          have member := prepared.whole.heads_known production listed
          have forest : Forest generator.grammar production.rhs children := ⟨body, below⟩
          obtain ⟨alternative, pending, waiting, low⟩ := prepared.alternative_of_tree listed forest
          obtain ⟨bodyKnown, bodyNeed⟩ := prepared.children_need listed body waiting
          have size : expansionCount (.node ⟨production.lhs, some production⟩ children) =
            1 + expansionCountAll children := expansion_count_node nonterminal
          rw [expansionCountAll, size] at fits
          -- What waits beside this tree needs no more than its trees have, so the production fits.
          have fitting : (pending : Int) + 1 ≤ start.slack + least := by
            push_cast at fits
            omega
          have among : production ∈ generator.offered production.lhs start.slack least :=
            List.mem_filter.2 ⟨alternative, (fits_iff waiting).2 fitting⟩
          rw [places_all_cons headNeed, places_node headNeed waiting, List.cons_append,
            List.map_cons, List.map_append, List.cons_append, List.append_assoc] at script
          obtain ⟨middle, expanded, between, left⟩ := prepared.expand_scripted unweighted member
            headNeed enough among waiting script
          rw [← between] at left
          obtain ⟨after, grown⟩ := childrenIh below bodyKnown bodyNeed (by omega) (by omega) left
          obtain ⟨draws, _, source, count, _, steered⟩ :=
            prepared.grown_scripted distinct grown left (by omega) bodyKnown bodyNeed
          have balanced := (prepared.grown_outcome grown bodyKnown bodyNeed).2.slack
          have onward : after.slack = start.slack + least -
              expansionCount (.node ⟨production.lhs, some production⟩ children) := by
            rw [size]
            push_cast
            omega
          -- The script is used up to the picks of the trees beside this one.
          have taken : draws.length = ((generator.placesAll children middle.slack).map
              Int.ofNat).length := by
            rw [← steered, List.length_map, length_steer]
          rw [taken, List.drop_left, ← onward] at source
          obtain ⟨final, later⟩ := othersIh others_complete known.tail restNeed
            (by rw [onward, size]; push_cast; omega) (by rw [onward, size]; push_cast; omega) source
          exact ⟨final, .expansion nonterminal expanded body grown later⟩

/-- A script with one pick for each expansion, each below the number of candidates it chooses from,
that makes the generator return the tree. -/
def LeadsTo (generator : Generator) (symbol : Symbol) (picks : List Nat) (tree : DerivationTree) :
    Prop :=
  picks.length = tree.expansionCount ∧
    ∃ final, generator.tree Source.picker symbol (.scripted (picks.map Int.ofNat)) =
        (.ok tree, final) ∧
      List.Forall₂ (fun pick draw => pick < draw.candidates.length) picks final.draws.reverse

section Fitting

variable (prepared : generator.Prepared) (distinct : generator.grammar.productions.Nodup)
  {tree : DerivationTree} (member : tree.root ∈ generator.grammar.nonterminals)
  (fits : tree.expansionCount ≤ generator.maxExpansions)

include prepared member

theorem Prepared.need_of_tree (complete : Complete generator.grammar tree) :
    ∃ least, generator.need tree.root = some least ∧ least ≤ tree.expansionCount := by
  have derives := (derives_tokens_iff prepared.whole).2 ⟨tree, complete, rfl⟩
  obtain ⟨least, needed⟩ := prepared.need_of_derives (Or.inr member) derives
  exact ⟨least, needed, (prepared.need_least (Or.inr member) needed).2 tree complete rfl⟩

include distinct fits

theorem Prepared.script_of_tree {least : Nat} (needed : generator.need tree.root = some least)
    (low : least ≤ tree.expansionCount) {picks : List Nat}
    (leads : generator.LeadsTo tree.root picks tree) :
    picks = generator.placesAll [tree] (generator.maxExpansions - least) := by
  obtain ⟨_, final, done, inRange⟩ := leads
  obtain ⟨_, grown, _⟩ := prepared.grown_of_tree member done
  have slack := start_slack needed (Source.scripted (picks.map Int.ofNat))
  have whole := need_all_single needed
  obtain ⟨draws, scripted⟩ := prepared.grown_scripted distinct grown rfl (by omega)
    (.singleton (Or.inr member)) whole
  rw [scripted.draws_from_start] at inRange
  rw [← steer_of_in_range inRange, scripted.steered, slack]

theorem Prepared.places_lead (complete : Complete generator.grammar tree) {least : Nat}
    (unweighted : generator.weights.isEmpty) (needed : generator.need tree.root = some least)
    (low : least ≤ tree.expansionCount) {picks : List Nat}
    (told : picks = generator.placesAll [tree] (generator.maxExpansions - least)) :
    generator.LeadsTo tree.root picks tree := by
  have derives := (derives_tokens_iff prepared.whole).2 ⟨tree, complete, rfl⟩
  have slack := start_slack needed (Source.scripted (picks.map Int.ofNat))
  have whole := need_all_single needed
  have known : generator.grammar.KnowsAll [tree.root] := .singleton (Or.inr member)
  have single : ∀ other ∈ [tree], Complete generator.grammar other := by
    intro other among
    obtain rfl := List.mem_singleton.1 among
    exact complete
  have script : (generator.start tree.root (Source.scripted (picks.map Int.ofNat))).source =
      .scripted ((generator.placesAll [tree] (generator.start tree.root
        (Source.scripted (picks.map Int.ofNat))).slack).map Int.ofNat ++ []) := by
    rw [slack, ← told, List.append_nil]
    rfl
  obtain ⟨final, grown⟩ := prepared.grown_of_places distinct unweighted single known whole
    (by omega) (by simp only [expansionCountAll]; omega) script
  have done := prepared.tree_of_grown member derives grown rfl (by omega)
  obtain ⟨draws, scripted⟩ :=
    prepared.grown_scripted distinct grown rfl (by omega) known whole
  have steered := scripted.steered
  rw [slack, ← told] at steered
  refine ⟨?_, final, done, ?_⟩
  · rw [← steered, length_steer, scripted.count]
    rfl
  · rw [scripted.draws_from_start, ← steered]
    exact steer_in_range _ scripted.nonempty

end Fitting

section Main

variable {declarations : Declarations} {variant : Variant} {grammar : Grammar}

/-- A generator without weights comes to each tree within its budget by one script. If the budget is
sufficient it comes to no others, whatever picks for it. The sums may overflow before there is a
generator. -/
theorem each_fitting_tree_has_one_script (built : declarations.build variant = .ok grammar) :
    (∀ options, InOrder grammar options → MadeUnlessOverflow grammar options) ∧
    ∀ options firsts generator, (ofGrammar grammar options firsts).outcome = .ok generator →
      options.weights.isEmpty → ∀ symbol ∈ grammar.nonterminals,
        (∀ tree, Complete grammar tree → tree.root = symbol →
          tree.expansionCount ≤ options.maxExpansions →
            ∃! picks, generator.LeadsTo symbol picks tree) ∧
        ∀ least, grammar.LeastExpansions symbol least → least ≤ options.maxExpansions → ∀ tree,
          (∃ (σ : Type) (picker : Picker σ) (source : σ),
            (generator.tree picker symbol source).1 = .ok tree) ↔
          Complete grammar tree ∧ tree.root = symbol ∧
            tree.expansionCount ≤ options.maxExpansions := by
  have whole := Declarations.well_formed_of_build built
  refine ⟨fun _ ordered => made_unless_overflow whole ordered, ?_⟩
  intro options firsts generator made unweighted symbol member
  have prepared := prepared_of_grammar whole made
  have distinct := Declarations.productions_nodup_of_build built
  obtain ⟨admitted, table, rfl⟩ := of_grammar_eq_ok made
  have budget : ((equipped grammar options table).maxExpansions : Int) = options.maxExpansions :=
    Int.toNat_of_nonneg admitted.budget
  have scripted : ∀ tree, Complete grammar tree → tree.root = symbol →
      tree.expansionCount ≤ options.maxExpansions →
        ∃! picks, (equipped grammar options table).LeadsTo symbol picks tree := by
    intro tree complete start fits
    subst start
    obtain ⟨least, needed, low⟩ := prepared.need_of_tree member complete
    have enough : tree.expansionCount ≤ (equipped grammar options table).maxExpansions := by omega
    refine ⟨_, prepared.places_lead distinct member enough complete unweighted needed low rfl, ?_⟩
    intro picks leads
    exact prepared.script_of_tree distinct member enough needed low leads
  refine ⟨scripted, ?_⟩
  intro least isLeast sufficient tree
  constructor
  · intro delivered
    rcases delivered with ⟨σ, picker, source, done⟩
    obtain ⟨complete, start, same, known, bounded⟩ :=
      prepared.tree_bounded member (Prod.ext done rfl)
    obtain rfl := known.unique isLeast
    exact ⟨complete, start, by omega⟩
  · intro fitting
    rcases fitting with ⟨complete, start, fits⟩
    obtain ⟨picks, ⟨_, final, done, _⟩, _⟩ := scripted tree complete start fits
    exact ⟨Source, Source.picker, .scripted (picks.map Int.ofNat), by rw [done]⟩

end Main

/-- The tree of the second token. -/
def secondTree : DerivationTree :=
  .node ⟨choice.start, some choice.leading[1]⟩ [leaf ⟨.terminal, 1, "b"⟩]

theorem second_tree_complete : Complete choice secondTree := by
  apply Complete.expansion (show choice.leading[1] ∈ choice.productions by decide) rfl rfl
  intro child among
  obtain rfl := List.mem_singleton.1 among
  exact .token rfl

theorem second_tree_has_one_script :
    choiceDeclarations.build .plain = .ok choice ∧ InOrder choice {} ∧
      MadeUnlessOverflow choice {} ∧ choice.start ∈ choice.nonterminals ∧
      Complete choice secondTree ∧ secondTree.root = choice.start ∧
      (secondTree.expansionCount : Int) ≤ 100 ∧ choice.LeastExpansions choice.start 1 ∧
      ∃ generator, (ofGrammar choice {} none).outcome = .ok generator ∧
        (∃! picks, generator.LeadsTo choice.start picks secondTree) ∧
        ∃ (σ : Type) (picker : Picker σ) (source : σ),
          (generator.tree picker choice.start source).1 = .ok secondTree := by
  have ordered := defaults_in_order choice
  have member : choice.start ∈ choice.nonterminals := by decide
  have fits : (secondTree.expansionCount : Int) ≤ 100 := by decide
  have made := of_grammar_of_admitted (Declarations.well_formed_of_build choice_built)
    (choice_admitted no_weights) none
  have correspond := each_fitting_tree_has_one_script choice_built
  rcases correspond.2 {} none _ made rfl choice.start member with ⟨scripts, within⟩
  have returned := (within 1 choice_least (by decide) secondTree).2
    ⟨second_tree_complete, rfl, fits⟩
  exact ⟨choice_built, ordered, correspond.1 {} ordered, member, second_tree_complete, rfl, fits,
    choice_least, _, made, scripts secondTree second_tree_complete rfl fits, returned⟩

/-- The tree of the ground floor is well within the budget, but no generator is there to return it,
because the floors above are beyond count. -/
theorem ground_tree_has_no_script :
    (towerDeclarations 1023).build .plain = .ok (declaredTower 1023) ∧
      floor 0 ∈ (declaredTower 1023).nonterminals ∧
      Complete (declaredTower 1023) groundTree ∧ groundTree.root = floor 0 ∧
      (groundTree.expansionCount : Int) ≤ 100 ∧ InOrder (declaredTower 1023) {} ∧
      (ofGrammar (declaredTower 1023) {} none).outcome = .error .numberTooLarge :=
  ⟨declared_tower_built 1023, ground_known 1023, ground_tree_complete 1023, rfl, by decide,
    defaults_in_order (declaredTower 1023), no_generator_of_high_tower⟩

end Generator

end GrammarKit
