import GrammarKit.Proofs.Cost.Sweeps
import GrammarKit.Proofs.Monotone

/-!
# What the sweeps find

Sweeps that end with a table have found the fewest expansions, or the least costs, of the complete
trees of every nonterminal, and nothing exactly for the nonterminals without such a tree. In exact
arithmetic that would be all. Sums beside unknown entries are not exact, though, so the sweeps can
also end with an overflow. A tower of nonterminals, each made of two of the one below it, shows that
expansions alone are enough for that.
-/

namespace GrammarKit

set_option autoImplicit false

open DerivationTree

namespace CostTable

/-- Each entry is the least cost of a complete tree, where there is such a tree. -/
structure Exact (grammar : Grammar) (costs : TokenCosts) (table : CostTable) : Prop where
  size : table.entries.length = grammar.nonterminals.length
  known : ∀ symbol ∈ grammar.nonterminals, ∀ cost,
    table.costAt symbol.index = some cost ↔ LeastCost grammar costs symbol cost
  unknown : ∀ symbol ∈ grammar.nonterminals,
    table.costAt symbol.index = none ↔ ¬∃ tree, Complete grammar tree ∧ tree.root = symbol

theorem of_grammar_exact {grammar : Grammar} (whole : grammar.WellFormed) {costs : TokenCosts}
    (signed : costs.Signed grammar) : (ofGrammar grammar costs).Exact grammar costs where
  size := (settled_sound whole).size
  known := by
    intro symbol member cost
    constructor
    · exact least_of_cost_at whole signed member
    · intro least
      obtain ⟨tree, complete, rfl, _⟩ := least.1
      obtain ⟨entry, read⟩ := cost_at_of_complete whole signed complete member
      rw [read, (least_of_cost_at whole signed member read).unique least]
  unknown := by
    intro symbol member
    constructor
    · intro nothing reached
      obtain ⟨tree, complete, rfl⟩ := reached
      obtain ⟨entry, read⟩ := cost_at_of_complete whole signed complete member
      rw [nothing] at read
      cases read
    · intro unreached
      cases read : (ofGrammar grammar costs).costAt symbol.index with
      | none => rfl
      | some cost =>
          obtain ⟨tree, complete, start, _⟩ := (settled_sound whole).earned symbol member cost read
          exact absurd ⟨tree, complete, start⟩ unreached

def expansionCounts (table : CostTable) : List (Option Nat) :=
  table.entries.map fun cost => cost.map (·.expansions)

end CostTable

namespace Grammar

variable {grammar : Grammar}

/-- Each entry is the least number of expansions in a complete tree, where there is such a tree. -/
structure CountsExpansions (grammar : Grammar) (table : List (Option Nat)) : Prop where
  size : table.length = grammar.nonterminals.length
  known : ∀ symbol ∈ grammar.nonterminals, ∀ least,
    (item? table symbol.index).join = some least ↔ grammar.LeastExpansions symbol least
  unknown : ∀ symbol ∈ grammar.nonterminals,
    (item? table symbol.index).join = none ↔ ¬∃ tree, Complete grammar tree ∧ tree.root = symbol

theorem expansions_counted (whole : grammar.WellFormed) :
    grammar.CountsExpansions grammar.expansions where
  size := (List.length_map _).trans (CostTable.settled_sound whole).size
  known := by
    intro symbol member least
    constructor
    · exact least_of_expansions_entry whole member
    · intro lowest
      obtain ⟨tree, complete, start, _⟩ := lowest.1
      have derives := (derives_tokens_iff whole).2 ⟨tree, complete, start⟩
      obtain ⟨entry, read⟩ := expansions_entry_of_derives whole member derives
      rw [read, (least_of_expansions_entry whole member read).unique lowest]
  unknown := by
    intro symbol member
    rw [expansions_entry, Option.map_eq_none_iff]
    exact (CostTable.of_grammar_exact whole (free_signed grammar)).unknown symbol member

theorem count_expansions_eq_sums : grammar.countExpansions =
    ((grammar.checkSums .free Cost.zero).map fun _ => CostTable.ofGrammar grammar .free).map
      CostTable.expansionCounts := by
  unfold countExpansions checkExpansions
  cases grammar.checkSums .free Cost.zero <;> rfl

theorem find_costs_eq_sums {costs : TokenCosts} (signed : costs.Signed grammar) :
    grammar.findCosts costs =
      (grammar.checkSums costs ⟨0, 1⟩).map fun _ => CostTable.ofGrammar grammar costs := by
  unfold findCosts checkCosts
  rw [TokenCosts.check_terminals_iff.2 signed]
  cases grammar.checkSums costs ⟨0, 1⟩ <;> rfl

/-- Expansions are counted by sweeps that come to an end, within one sweep more than there are
nonterminals. The counts would be right in exact arithmetic, and only an overflow can keep them from
being returned. -/
theorem fewest_expansions_counted (whole : grammar.WellFormed) :
    (∃ sweeps ≤ grammar.nonterminals.length + 1, ∃ outcome,
      (∀ others result, Sweep.Ends (Sweep.through grammar .free Cost.zero ⟨0, 1⟩)
        (CostTable.blank grammar) others result ↔ others = sweeps ∧ result = outcome) ∧
      grammar.countExpansions = outcome.map CostTable.expansionCounts) ∧
    grammar.CountsExpansions grammar.expansions ∧
    (grammar.countExpansions = .ok grammar.expansions ∨
      grammar.countExpansions = .error .numberTooLarge ∧
        grammar.SumsOverflow .free Cost.zero) := by
  obtain ⟨sweeps, few, ends_iff⟩ := Sweep.ends_from_blank whole (free_signed grammar)
    (rfl : Cost.add ⟨0, 1⟩ Cost.zero = ⟨0, 1⟩)
  refine ⟨⟨sweeps, few, _, ends_iff, count_expansions_eq_sums⟩, expansions_counted whole, ?_⟩
  rcases (settles_unless_overflow whole).expansions with ⟨table, counted⟩ | overflow
  · exact Or.inl (count_expansions_eq counted ▸ counted)
  · exact Or.inr overflow

/-- A rule for a letter, one that leads back to itself only, and the start. -/
def selfish : Grammar where
  variant := .plain
  tokens := [⟨.terminal, 0, "a"⟩]
  eof := ⟨.terminal, 1, "$"⟩
  nonterminals := [⟨.nonterminal, 0, "S"⟩, ⟨.nonterminal, 1, "Y"⟩, ⟨.nonterminal, 2, "S'"⟩]
  leading := [
    ⟨0, ⟨.nonterminal, 0, "S"⟩, [⟨.terminal, 0, "a"⟩], none⟩,
    ⟨1, ⟨.nonterminal, 1, "Y"⟩, [⟨.nonterminal, 1, "Y"⟩], none⟩]
  startProduction :=
    ⟨2, ⟨.nonterminal, 2, "S'"⟩, [⟨.nonterminal, 0, "S"⟩, ⟨.terminal, 1, "$"⟩], none⟩
  start := ⟨.nonterminal, 0, "S"⟩
  implicitRule := none
  precedences := ∅
  errorTexts := ∅

theorem selfish_counted :
    selfish.WellFormed ∧ selfish.countExpansions = .ok [some 1, none, some 2] ∧
      selfish.LeastExpansions ⟨.nonterminal, 2, "S'"⟩ 2 ∧
      ¬∃ tree, Complete selfish tree ∧ tree.root = ⟨.nonterminal, 1, "Y"⟩ := by
  have whole : selfish.WellFormed := by decide
  have counted : selfish.countExpansions = .ok [some 1, none, some 2] := by decide +kernel
  obtain ⟨_, exact, answered | overflow⟩ := fewest_expansions_counted whole
  · obtain same : [some 1, none, some 2] = selfish.expansions :=
      Except.ok.inj (counted.symm.trans answered)
    rw [← same] at exact
    exact ⟨whole, counted, (exact.known _ (by decide) 2).1 rfl, (exact.unknown _ (by decide)).1 rfl⟩
  · rw [counted] at overflow
    cases overflow.1

section Tower

def floor (level : Nat) : Symbol := ⟨.nonterminal, level, "L" ++ toString level⟩

/-- The ground floor is empty, and every other floor is made of two of the one below. -/
def floorProduction : Nat → Production
  | 0 => ⟨0, floor 0, [], none⟩
  | level + 1 => ⟨level + 1, floor (level + 1), [floor level, floor level], none⟩

/-- A start symbol with the top floor of a tower in front of a nonterminal that comes later. -/
def tower (height : Nat) : Grammar where
  variant := .plain
  tokens := []
  eof := ⟨.terminal, 0, "$"⟩
  nonterminals := (List.range (height + 4)).map floor
  leading := (List.range (height + 1)).map floorProduction ++
    [⟨height + 1, floor (height + 1), [floor height, floor (height + 2)], none⟩,
      ⟨height + 2, floor (height + 2), [], none⟩]
  startProduction :=
    ⟨height + 3, floor (height + 3), [floor (height + 1), ⟨.terminal, 0, "$"⟩], none⟩
  start := floor (height + 1)
  implicitRule := none
  precedences := ∅
  errorTexts := ∅

variable {height level : Nat}

theorem floor_inj {other : Nat} : floor level = floor other ↔ level = other := by
  constructor
  · intro same
    exact Int.ofNat.inj (congrArg Symbol.index same)
  · exact congrArg floor

theorem floor_mem : floor level ∈ (tower height).nonterminals ↔ level < height + 4 := by
  change floor level ∈ (List.range (height + 4)).map floor ↔ _
  simp [List.mem_map, floor_inj]

theorem floor_production_lhs (level : Nat) : (floorProduction level).lhs = floor level := by
  cases level <;> rfl

theorem mem_tower_productions {production : Production} :
    production ∈ (tower height).productions ↔
      (∃ level < height + 1, floorProduction level = production) ∨
      production = ⟨height + 1, floor (height + 1), [floor height, floor (height + 2)], none⟩ ∨
      production = ⟨height + 2, floor (height + 2), [], none⟩ ∨
      production = (tower height).startProduction := by
  simp [productions, tower]

theorem tower_whole (height : Nat) : (tower height).WellFormed where
  terminals_numbered := by
    change NumberedTable .terminal [⟨.terminal, 0, "$"⟩]
    decide
  nonterminals_numbered := by
    intro entry listed
    obtain ⟨symbol, place⟩ := entry
    rw [List.mk_mem_zipIdx_iff_getElem?] at listed
    change ((List.range (height + 4)).map floor)[place]? = some symbol at listed
    rw [List.getElem?_map] at listed
    obtain ⟨level, found, rfl⟩ := Option.map_eq_some_iff.1 listed
    obtain ⟨inside, rfl⟩ := List.getElem?_eq_some_iff.1 found
    rw [List.getElem_range]
    exact ⟨rfl, rfl⟩
  start_known := floor_mem.2 (by omega)
  heads_known := by
    intro production listed
    rcases mem_tower_productions.1 listed with ⟨level, below, rfl⟩ | rfl | rfl | rfl
    · rw [floor_production_lhs]
      exact floor_mem.2 (by omega)
    · exact floor_mem.2 (by omega)
    · exact floor_mem.2 (by omega)
    · exact floor_mem.2 (by omega)
  bodies_known := by
    intro production listed symbol occurs
    rcases mem_tower_productions.1 listed with ⟨level, below, rfl⟩ | rfl | rfl | rfl
    · cases level with
      | zero => cases occurs
      | succ level =>
          obtain rfl : symbol = floor level := by simpa [floorProduction] using occurs
          exact Or.inr (floor_mem.2 (by omega))
    · rcases List.mem_pair.1 occurs with rfl | rfl
      · exact Or.inr (floor_mem.2 (by omega))
      · exact Or.inr (floor_mem.2 (by omega))
    · cases occurs
    · rcases List.mem_pair.1 occurs with rfl | rfl
      · exact Or.inr (floor_mem.2 (by omega))
      · exact Or.inl (List.mem_singleton.2 rfl)

/-- The table when a sweep has been through the floors below `level`. -/
def risen (height level : Nat) : CostTable :=
  ((List.range level).map floorProduction).foldl (CostTable.learn .free)
    (CostTable.blank (tower height))

theorem risen_succ (height level : Nat) :
    risen height (level + 1) = (risen height level).learn .free (floorProduction level) := by
  unfold risen
  rw [List.range_succ, List.map_append, List.foldl_append]
  rfl

theorem risen_size (height level : Nat) :
    (risen height level).entries.length = (tower height).nonterminals.length := by
  induction level with
  | zero => exact CostTable.blank_size _
  | succ level ih =>
      rw [risen_succ]
      exact (CostTable.learn_size _).trans ih

/-- Each floor takes twice as many expansions as the one below, and one more. -/
theorem floor_found (below : ∀ lower, lower + 1 = level →
    (risen height level).costAt (floor lower).index = some ⟨0, 2 ^ level - 1⟩) :
    (risen height level).ofProduction .free (floorProduction level) =
      some ⟨0, 2 ^ (level + 1) - 1⟩ := by
  cases level with
  | zero => rfl
  | succ level =>
      have entry : (risen height (level + 1)).ofSymbol .free (floor level) =
          some ⟨0, 2 ^ (level + 1) - 1⟩ := by
        rw [CostTable.of_symbol_nonterminal rfl]
        exact below level rfl
      have positive : 0 < 2 ^ (level + 1) := Nat.two_pow_pos _
      have doubled : 1 + (2 ^ (level + 1) - 1 + (2 ^ (level + 1) - 1)) = 2 ^ (level + 2) - 1 := by
        rw [Nat.pow_succ 2 (level + 1)]
        omega
      change Cost.sum (some ⟨0, 1⟩) (Cost.sum (CostTable.ofSymbol _ .free (floor level))
        (Cost.sum (CostTable.ofSymbol _ .free (floor level)) (some Cost.zero))) = _
      rw [entry, Cost.sum_zero, ← doubled]
      rfl

/-- The floors below `level` have their counts, and nothing else is known. -/
theorem risen_cost {place : Nat} (low : level ≤ height + 1) (inside : place < height + 4) :
    (risen height level).costAt (floor place).index =
      if place < level then some ⟨0, 2 ^ (place + 1) - 1⟩ else none := by
  induction level generalizing place with
  | zero => exact CostTable.blank_cost_at (tower_whole height) (floor_mem.2 inside)
  | succ level ih =>
      have head : (floorProduction level).lhs ∈ (tower height).nonterminals := by
        rw [floor_production_lhs]
        exact floor_mem.2 (by omega)
      have found : (risen height level).ofProduction .free (floorProduction level) =
          some ⟨0, 2 ^ (level + 1) - 1⟩ := by
        apply floor_found
        intro lower next
        rw [ih (by omega) (by omega), if_pos (by omega), next]
      have unknown : (risen height level).costAt (floor level).index = none := by
        rw [ih (by omega) (by omega), if_neg (by omega)]
      rw [risen_succ, CostTable.cost_at_learn (tower_whole height) (risen_size height level) head
        (floor_mem.2 inside), floor_production_lhs]
      by_cases same : place = level
      · subst same
        rw [if_pos rfl, found, unknown, if_pos (by omega)]
        rfl
      · have apart : floor place ≠ floor level := fun equal => same (floor_inj.1 equal)
        have later : place < level + 1 ↔ place < level := by omega
        rw [if_neg apart, ih (by omega) inside]
        simp [later]

/-- The top floor stands beside a nonterminal that the sweep has not come to yet. -/
theorem roof_faulty (high : doubleLimit ≤ 2 ^ (height + 1) - 1) :
    (risen height (height + 1)).faultOf .free Cost.zero
      ⟨height + 1, floor (height + 1), [floor height, floor (height + 2)], none⟩ =
        some .numberTooLarge := by
  have top : (risen height (height + 1)).ofSymbol .free (floor height) =
      some ⟨0, 2 ^ (height + 1) - 1⟩ := by
    rw [CostTable.of_symbol_nonterminal rfl, risen_cost (by omega) (by omega), if_pos (by omega)]
  have open_above : (risen height (height + 1)).ofSymbol .free (floor (height + 2)) = none := by
    rw [CostTable.of_symbol_nonterminal rfl, risen_cost (by omega) (by omega), if_neg (by omega)]
  have beyond : (Cost.mk 0 (2 ^ (height + 1) - 1)).fits = false := by
    have large : ¬((2 ^ (height + 1) - 1 : Nat) : Int).natAbs < doubleLimit := by
      rw [Int.natAbs_natCast]
      exact Nat.not_lt.2 high
    exact Bool.and_eq_false_iff.2 (Or.inr (decide_eq_false large))
  have size := risen_size height (height + 1)
  have first : (risen height (height + 1)).gather .free (some Cost.zero) (floor height) =
      .ok (some ⟨0, 2 ^ (height + 1) - 1⟩) := by
    rw [CostTable.gather_eq (tower_whole height) size (Or.inr (floor_mem.2 (by omega))), top,
      Cost.meet_known]
    simp [Cost.add, Cost.zero]
  have second : (risen height (height + 1)).gather .free (some ⟨0, 2 ^ (height + 1) - 1⟩)
      (floor (height + 2)) = .error .numberTooLarge := by
    rw [CostTable.gather_eq (tower_whole height) size (Or.inr (floor_mem.2 (by omega))),
      open_above, Cost.meet_known_unknown, beyond]
    rfl
  have rest : [floor (height + 2)].foldlM ((risen height (height + 1)).gather .free)
      (some ⟨0, 2 ^ (height + 1) - 1⟩) = .error .numberTooLarge := by
    rw [List.foldlM_cons, second]
    rfl
  have failed : [floor height, floor (height + 2)].foldlM
      ((risen height (height + 1)).gather .free) (some Cost.zero) = .error .numberTooLarge := by
    rw [List.foldlM_cons, first]
    exact rest
  unfold CostTable.faultOf
  rw [failed]

theorem tower_overflows (high : doubleLimit ≤ 2 ^ (height + 1) - 1) :
    (tower height).countExpansions = .error .numberTooLarge := by
  let floors := (List.range (height + 1)).map floorProduction
  let roof : Production :=
    ⟨height + 1, floor (height + 1), [floor height, floor (height + 2)], none⟩
  let built := floors.foldl (Trial.learn .free Cost.zero) ⟨CostTable.blank (tower height), none⟩
  have below : built.table = risen height (height + 1) := Sweep.trial_table _ _
  have roofed : ∃ fault, (built.learn .free Cost.zero roof).fault = some fault := by
    change ∃ fault, built.fault.or (built.table.faultOf .free Cost.zero roof) = some fault
    rw [below, roof_faulty high]
    cases built.fault with
    | none => exact ⟨_, rfl⟩
    | some fault => exact ⟨fault, rfl⟩
  obtain ⟨fault, faulty⟩ := roofed
  have split : (tower height).productions = floors ++ roof ::
      [⟨height + 2, floor (height + 2), [], none⟩, (tower height).startProduction] := by
    simp [productions, tower, floors, roof]
  have passed : (Trial.pass .free Cost.zero (tower height).productions
      ⟨CostTable.blank (tower height), none⟩).fault = some fault := by
    unfold Trial.pass
    rw [split, List.foldl_append, List.foldl_cons]
    exact Sweep.trial_fault_kept _ faulty
  have failed := Sweep.bounded_of_fault passed (tower height).nonterminals.length
  have counted : (tower height).countExpansions = .error fault := by
    rw [count_expansions_eq_sums]
    exact congrArg (Except.map CostTable.expansionCounts) failed
  rcases (settles_unless_overflow (tower_whole height)).expansions with ⟨table, answered⟩ | overflow
  · rw [counted] at answered
    cases answered
  · exact overflow.1

/-- Expansions of a well-formed grammar are not counted. -/
theorem tower_not_counted :
    (tower 1023).WellFormed ∧ (tower 1023).countExpansions = .error .numberTooLarge := by
  refine ⟨tower_whole 1023, tower_overflows ?_⟩
  decide +kernel

end Tower

/-- The costs of a nonterminal are found by sweeps that come to an end, for every way to charge
tokens without negative costs. They are least, and only an overflow can keep them from being
returned. -/
theorem least_costs_found (whole : grammar.WellFormed) :
    (∀ charge : Symbol → Int, ∃ costs : TokenCosts,
      ∀ terminal ∈ grammar.terminals, costs.of terminal = charge terminal) ∧
    ∀ costs : TokenCosts, costs.Signed grammar →
      (∃ sweeps ≤ grammar.nonterminals.length + 1, ∀ others outcome,
        Sweep.Ends (Sweep.through grammar costs ⟨0, 1⟩ Cost.zero)
          (CostTable.blank grammar) others outcome ↔
            others = sweeps ∧ outcome = grammar.findCosts costs) ∧
      ((∃ table, grammar.findCosts costs = .ok table ∧ table.Exact grammar costs) ∨
        grammar.findCosts costs = .error .numberTooLarge ∧
          grammar.SumsOverflow costs ⟨0, 1⟩) := by
  refine ⟨TokenCosts.charges_numbered whole, ?_⟩
  intro costs signed
  constructor
  · rw [find_costs_eq_sums signed]
    exact Sweep.ends_from_blank whole signed (rfl : Cost.add Cost.zero ⟨0, 1⟩ = ⟨0, 1⟩)
  · rcases (settles_unless_overflow whole).costs costs signed with ⟨table, found⟩ | overflow
    · refine Or.inl ⟨table, found, ?_⟩
      rw [find_costs_eq found]
      exact CostTable.of_grammar_exact whole signed
    · exact Or.inr overflow

theorem heavy_letter_avoided :
    baseFirst.WellFormed ∧ (Generator.charging "a" doubleLimit).tokenCosts.Signed baseFirst ∧
      ∃ table, baseFirst.findCosts (Generator.charging "a" doubleLimit).tokenCosts = .ok table ∧
        table.Exact baseFirst (Generator.charging "a" doubleLimit).tokenCosts := by
  have natural : (0 : Int) ≤ doubleLimit := Int.natCast_nonneg doubleLimit
  have whole : baseFirst.WellFormed := by decide
  have signed := (Generator.charging_in_order baseFirst "a" natural).tokenCosts
  have found : baseFirst.findCosts (Generator.charging "a" doubleLimit).tokenCosts =
      .ok ⟨[some ⟨1, 1⟩, some ⟨2, 2⟩]⟩ := by decide +kernel
  rcases (least_costs_found whole).2 _ signed with ⟨_, answered | overflow⟩
  · exact ⟨whole, signed, answered⟩
  · rw [found] at overflow
    cases overflow.1

/-- The least cost is one token and one expansion, but there is no table with it. -/
theorem heavy_letter_in_the_way :
    recursionFirst.WellFormed ∧ ∃ costs : TokenCosts, costs.Signed recursionFirst ∧
      LeastCost recursionFirst costs ⟨.nonterminal, 0, "S"⟩ ⟨1, 1⟩ ∧
      recursionFirst.findCosts costs = .error .numberTooLarge := by
  have natural : (0 : Int) ≤ doubleLimit := Int.natCast_nonneg doubleLimit
  have whole : recursionFirst.WellFormed := by decide
  have signed := (Generator.charging_in_order recursionFirst "a" natural).tokenCosts
  have entry : (CostTable.ofGrammar recursionFirst
      (Generator.charging "a" doubleLimit).tokenCosts).costAt 0 = some ⟨1, 1⟩ := by decide +kernel
  refine ⟨whole, (Generator.charging "a" doubleLimit).tokenCosts, signed, ?_, by decide +kernel⟩
  exact CostTable.least_of_cost_at whole signed (by decide) entry

end Grammar

end GrammarKit
