import GrammarKit.Proofs.Build.Names
import GrammarKit.Proofs.Build.WellFormed
import GrammarKit.Proofs.Cost.LeastTables
import GrammarKit.Proofs.Renaming.Analyses

/-!
# A tower from declarations

The tower of nonterminals that cannot be counted may well be declared, rule by rule. All checks let
it pass, so that there is a grammar. Its ground floor derives the empty text in a single expansion.
Still there is no generator of it, as soon as the count of the top floor is no double any more.
-/

namespace GrammarKit

set_option autoImplicit false

open DerivationTree

namespace Grammar

variable {height level : Nat}

/-- The production of a floor, of the start above the top floor, or of the nonterminal beside it. -/
def storey (height level : Nat) : Production :=
  if level < height + 1 then floorProduction level
  else if level = height + 1 then
    ⟨height + 1, floor (height + 1), [floor height, floor (height + 2)], none⟩
  else ⟨level, floor level, [], none⟩

theorem storey_low (low : level < height + 1) : storey height level = floorProduction level :=
  if_pos low

theorem storey_eq (height level : Nat) :
    storey height level = ⟨level, floor level, (storey height level).rhs, none⟩ := by
  unfold storey
  split
  · cases level <;> rfl
  · split
    · subst level
      rfl
    · rfl

theorem storey_rhs {part : Symbol} (low : level < height + 3)
    (occurs : part ∈ (storey height level).rhs) : ∃ below < height + 3, part = floor below := by
  unfold storey at occurs
  split at occurs
  · cases level with
    | zero => cases occurs
    | succ level => exact ⟨level, by omega, by simpa [floorProduction] using occurs⟩
  · split at occurs
    · rcases List.mem_pair.1 occurs with same | same
      · exact ⟨height, by omega, same⟩
      · exact ⟨height + 2, by omega, same⟩
    · cases occurs

theorem tower_leading (height : Nat) :
    (tower height).leading = (List.range (height + 3)).map (storey height) := by
  have floors : (List.range (height + 1)).map (storey height) =
      (List.range (height + 1)).map floorProduction := by
    apply List.map_congr_left
    intro level below
    exact storey_low (List.mem_range.1 below)
  have start : storey height (height + 1) =
      ⟨height + 1, floor (height + 1), [floor height, floor (height + 2)], none⟩ := by
    simp [storey]
  have beside : storey height (height + 2) = ⟨height + 2, floor (height + 2), [], none⟩ := by
    simp [storey]
  rw [List.range_succ, List.range_succ, List.map_append, List.map_append, floors,
    List.map_singleton, List.map_singleton, start, beside, List.append_assoc]
  rfl

theorem floor_name_inj {lower upper : Nat} (same : (floor lower).name = (floor upper).name) :
    lower = upper := by
  have texts : toString lower = toString upper := (String.append_right_inj "L").1 same
  have digits : Nat.toDigits 10 lower = Nat.toDigits 10 upper := by
    rwa [Nat.toString_eq_ofList_toDigits, Nat.toString_eq_ofList_toDigits, String.ofList_inj]
      at texts
  -- A number is read back from its digits.
  calc
    lower = Nat.ofDigitChars 10 (Nat.toDigits 10 lower) 0 := Nat.ofDigitChars_ten_toDigits.symm
    _ = Nat.ofDigitChars 10 (Nat.toDigits 10 upper) 0 := by rw [digits]
    _ = upper := Nat.ofDigitChars_ten_toDigits

theorem floor_names_nodup (count : Nat) :
    ((List.range count).map fun level => (floor level).name).Nodup := by
  apply List.Nodup.map _ List.nodup_range
  intro lower upper same
  exact floor_name_inj same

end Grammar

open Grammar

/-- One rule for each storey, with the storeys by name. -/
def towerDeclarations (height : Nat) : Declarations where
  rules := (List.range (height + 3)).map fun level =>
    ⟨(floor level).name, [⟨(storey height level).rhs.map fun part => .rule part.name, none⟩]⟩
  starts := [(floor (height + 1)).name]

namespace Tower

variable {height : Nat}

theorem rule_names (height : Nat) : (towerDeclarations height).ruleNames =
    (List.range (height + 3)).map fun level => (floor level).name := by
  simp [Declarations.ruleNames, towerDeclarations, Function.comp_def]

theorem rule_symbols (height : Nat) :
    (towerDeclarations height).ruleSymbols = (List.range (height + 3)).map floor := by
  unfold Declarations.ruleSymbols numberedSymbols
  rw [rule_names]
  apply List.ext_getElem
  · simp
  · intro place inside _
    simp [floor]

theorem found_by_its_name {level : Nat} (low : level < height + 3) :
    ((towerDeclarations height).ruleSymbols.find? fun symbol =>
      symbol.name = (floor level).name) = some (floor level) := by
  rw [rule_symbols]
  apply found_by_name
  · rw [List.map_map]
    exact floor_names_nodup (height + 3)
  · exact List.mem_map_of_mem (List.mem_range.2 low)

/-- What the storeys are before they are numbered. -/
def clause (height level : Nat) : Clause := ⟨floor level, (storey height level).rhs, none⟩

theorem storey_made {level : Nat} (low : level < height + 3)
    (precedences : Register String Precedence) :
    ((towerDeclarations height).scope .plain precedences).clause (floor level)
      ⟨(storey height level).rhs.map fun part => .rule part.name, none⟩ =
        .ok (clause height level) := by
  have resolved : ((storey height level).rhs.map fun part => Reference.rule part.name).mapM
      (((towerDeclarations height).scope .plain precedences).resolve (floor level).name) =
        .ok ((storey height level).rhs.map fun part => [part]) := by
    rw [List.mapM_map]
    apply except_map_m_ok
    intro part occurs
    obtain ⟨below, inside, rfl⟩ := storey_rhs low occurs
    have found : ((towerDeclarations height).scope .plain precedences).rule? (floor below).name =
        some (floor below) := found_by_its_name inside
    change (require (Scope.rule? _ (floor below).name) _ >>= fun symbol => pure [symbol]) = _
    rw [found]
    rfl
  have whole : ((storey height level).rhs.map fun part => [part]).flatten =
      (storey height level).rhs := by
    rw [← List.flatMap_def, List.flatMap_singleton']
  unfold Scope.clause
  rw [resolved]
  change Except.ok (Clause.mk _ (List.flatten _) none) = _
  rw [whole]
  rfl

theorem clauses_made (height : Nat) (precedences : Register String Precedence) :
    (towerDeclarations height).clauses ((towerDeclarations height).scope .plain precedences) =
      .ok ((List.range (height + 3)).map (clause height)) := by
  unfold Declarations.clauses
  rw [rule_symbols]
  change List.mapM _ (((List.range (height + 3)).map _ |>.zip _).flatMap _) = _
  rw [List.zip_map', List.flatMap_map]
  simp only [List.map_cons, List.map_nil]
  rw [← List.map_eq_flatMap, List.mapM_map]
  apply except_map_m_ok
  intro level among
  exact storey_made (List.mem_range.1 among) precedences

def parts (height : Nat) : Declarations.Parts where
  start := floor (height + 1)
  precedences := ∅
  clauses := (List.range (height + 3)).map (clause height)
  errorTexts := ∅
  implicitTokens := []

theorem accepted (height : Nat) : (towerDeclarations height).Accepted .plain (parts height) where
  rules := by
    have apart : repeated? [] (towerDeclarations height).ruleNames = none := by
      rw [repeated_none_iff, rule_names]
      exact ⟨floor_names_nodup (height + 3), fun _ _ => List.not_mem_nil⟩
    have filled : (towerDeclarations height).rules.isEmpty = false := by
      simp [towerDeclarations]
    unfold Declarations.checkRules
    rw [filled, apart]
    rfl
  start := by
    unfold Declarations.startSymbol
    change require ((towerDeclarations height).ruleSymbols.find? _) _ = _
    rw [found_by_its_name (by omega)]
    rfl
  tokens := rfl
  precedences := rfl
  clauses := clauses_made height ∅
  errorTexts := rfl
  implicitTokens := rfl

end Tower

def declaredTower (height : Nat) : Grammar :=
  (towerDeclarations height).grammarOf .plain (Tower.parts height)

theorem declared_tower_built (height : Nat) :
    (towerDeclarations height).build .plain = .ok (declaredTower height) :=
  Declarations.build_eq_ok_iff.2 ⟨Tower.parts height, Tower.accepted height, rfl⟩

namespace Tower

variable {height : Nat}

/-- The augmented start goes by another name, and all else is the same. -/
def naming (height : Nat) : Naming where
  symbol := fun symbol =>
    if symbol = floor (height + 3) then ((declaredTower height).augmentedStart).name else symbol.name
  declared := id

theorem floor_renamed {level : Nat} (low : level < height + 3) :
    (floor level).renamed (naming height) = floor level := by
  have apart : floor level ≠ floor (height + 3) := by
    intro same
    have equal := floor_inj.1 same
    omega
  have kept : (naming height).symbol (floor level) = (floor level).name := if_neg apart
  unfold Symbol.renamed
  rw [kept]

theorem storey_renamed {level : Nat} (low : level < height + 3) :
    (storey height level).renamed (naming height) = storey height level := by
  have parts : ∀ part ∈ (storey height level).rhs, part.renamed (naming height) = part := by
    intro part occurs
    obtain ⟨below, inside, rfl⟩ := storey_rhs low occurs
    exact floor_renamed inside
  have rhs : (storey height level).rhs.map (·.renamed (naming height)) =
      (storey height level).rhs := (List.map_congr_left parts).trans (List.map_id' _)
  unfold Production.renamed
  rw [rhs, storey_eq]
  dsimp only
  rw [floor_renamed low]
  rfl

theorem numbered (height : Nat) :
    numberedProductions ((List.range (height + 3)).map (clause height)) =
      (tower height).leading := by
  rw [tower_leading]
  apply List.ext_getElem
  · simp
  · intro place inside _
    rw [List.getElem_map, List.getElem_range, storey_eq]
    simp [numberedProductions, clause]

theorem top_renamed (height : Nat) :
    (floor (height + 3)).renamed (naming height) = (declaredTower height).augmentedStart := by
  have given : (naming height).symbol (floor (height + 3)) =
      ((declaredTower height).augmentedStart).name := if_pos rfl
  have count : (towerDeclarations height).rules.length = height + 3 := by
    simp [towerDeclarations]
  have index : ((declaredTower height).augmentedStart).index = (height + 3 : Nat) :=
    congrArg Nat.cast count
  unfold Symbol.renamed
  rw [given]
  change Symbol.mk _ ((height + 3 : Nat) : Int) _ = _
  rw [← index]
  rfl

theorem nonterminals_renamed (height : Nat) :
    (tower height).nonterminals.map (·.renamed (naming height)) =
      (declaredTower height).nonterminals := by
  have split : (tower height).nonterminals =
      (List.range (height + 3)).map floor ++ [floor (height + 3)] := by
    change (List.range (height + 3 + 1)).map floor = _
    rw [List.range_succ, List.map_append, List.map_singleton]
  have kept : ∀ symbol ∈ (List.range (height + 3)).map floor,
      symbol.renamed (naming height) = symbol := by
    intro symbol among
    obtain ⟨level, low, rfl⟩ := List.mem_map.1 among
    exact floor_renamed (List.mem_range.1 low)
  have below := (List.map_congr_left kept).trans (List.map_id' _)
  rw [split, List.map_append, below, List.map_singleton, top_renamed, ← rule_symbols]
  change _ = (towerDeclarations height).ruleSymbols ++ [] ++ [_]
  rw [List.append_nil]
  rfl

theorem leading_renamed (height : Nat) :
    (tower height).leading.map (·.renamed (naming height)) = (declaredTower height).leading := by
  have kept : ∀ production ∈ (tower height).leading,
      production.renamed (naming height) = production := by
    rw [tower_leading]
    intro production among
    obtain ⟨level, low, rfl⟩ := List.mem_map.1 among
    exact storey_renamed (List.mem_range.1 low)
  have unchanged := (List.map_congr_left kept).trans (List.map_id' _)
  rw [unchanged, ← numbered height]
  change _ = numberedProductions (_ ++ [])
  rw [List.append_nil]
  rfl

theorem start_production_renamed (height : Nat) :
    (tower height).startProduction.renamed (naming height) =
      (declaredTower height).startProduction := by
  have count : (declaredTower height).leading.length = height + 3 := by
    rw [← leading_renamed, List.length_map, tower_leading, List.length_map, List.length_range]
  have index : (declaredTower height).startProduction.index = (height + 3 : Nat) :=
    congrArg Nat.cast count
  have start : (floor (height + 1)).renamed (naming height) = floor (height + 1) :=
    floor_renamed (by omega)
  change Production.mk ((height + 3 : Nat) : Int) ((floor (height + 3)).renamed (naming height))
    [(floor (height + 1)).renamed (naming height), _] none = _
  rw [top_renamed, start, ← index]
  rfl

theorem tower_renamed (height : Nat) :
    (tower height).renamed (naming height) = declaredTower height := by
  have start : (tower height).start.renamed (naming height) = (declaredTower height).start :=
    floor_renamed (by omega)
  unfold Grammar.renamed
  rw [nonterminals_renamed, leading_renamed, start_production_renamed, start]
  rfl

end Tower

section Ground

/-- The ground floor with nothing below it. -/
def groundTree : DerivationTree := .node ⟨floor 0, some (floorProduction 0)⟩ []

theorem ground_known (height : Nat) : floor 0 ∈ (declaredTower height).nonterminals := by
  rw [← Tower.nonterminals_renamed, ← Tower.floor_renamed (show 0 < height + 3 by omega)]
  exact List.mem_map_of_mem (floor_mem.2 (by omega))

theorem ground_tree_complete (height : Nat) : Complete (declaredTower height) groundTree := by
  have listed : floorProduction 0 ∈ (declaredTower height).productions := by
    apply List.mem_append_left
    rw [← Tower.leading_renamed, tower_leading, List.map_map]
    apply List.mem_map.2
    refine ⟨0, List.mem_range.2 (by omega), ?_⟩
    exact (Tower.storey_renamed (by omega)).trans (storey_low (by omega))
  apply Complete.expansion listed rfl rfl
  intro child absent
  cases absent

theorem ground_derives (height : Nat) : (declaredTower height).DerivesTokens (floor 0) := by
  have whole := Declarations.well_formed_of_build (declared_tower_built height)
  exact (derives_tokens_iff whole).2 ⟨groundTree, ground_tree_complete height, rfl⟩

end Ground

theorem declared_tower_overflows {height : Nat} (high : doubleLimit ≤ 2 ^ (height + 1) - 1) :
    (declaredTower height).checkExpansions = .error .numberTooLarge := by
  have counted := tower_overflows high
  unfold countExpansions at counted
  rw [← Tower.tower_renamed, check_expansions_renamed]
  cases checked : (tower height).checkExpansions with
  | error fault =>
      rw [checked] at counted
      cases counted
      rfl
  | ok =>
      rw [checked] at counted
      cases counted

namespace Generator

theorem defaults_in_order (grammar : Grammar) : InOrder grammar {} where
  budget := Int.natCast_nonneg 100
  weights := by
    intro entry absent
    cases absent
  tokenCosts := fun _ _ => Int.one_nonneg

/-- A nonterminal may have a tree of one expansion, and still no generator is made for its grammar. -/
theorem no_generator_of_tower {height : Nat} (high : doubleLimit ≤ 2 ^ (height + 1) - 1)
    {options : GeneratorOptions} (ordered : InOrder (declaredTower height) options) :
    (ofGrammar (declaredTower height) options none).outcome = .error .numberTooLarge := by
  have whole := Declarations.well_formed_of_build (declared_tower_built height)
  exact of_grammar_of_overflow whole ordered (Or.inl (declared_tower_overflows high))

theorem no_generator_of_high_tower :
    (ofGrammar (declaredTower 1023) {} none).outcome = .error .numberTooLarge := by
  apply no_generator_of_tower _ (defaults_in_order (declaredTower 1023))
  decide +kernel

/-- The ground floor of a high tower derives a finite sequence, and no generator is there to tell. -/
theorem ground_without_generator :
    (towerDeclarations 1023).build .plain = .ok (declaredTower 1023) ∧
      floor 0 ∈ (declaredTower 1023).nonterminals ∧
      (declaredTower 1023).DerivesTokens (floor 0) ∧ InOrder (declaredTower 1023) {} ∧
      (ofGrammar (declaredTower 1023) {} none).outcome = .error .numberTooLarge :=
  ⟨declared_tower_built 1023, ground_known 1023, ground_derives 1023,
    defaults_in_order (declaredTower 1023), no_generator_of_high_tower⟩

end Generator

end GrammarKit
