import GrammarKit.Grammar.WellFormed

/-!
# Tables over the nonterminals

An analysis keeps one entry for each nonterminal of a grammar. In a well-formed grammar every
nonterminal finds its entry, and a change under the index of one nonterminal is seen by no other.
-/

namespace GrammarKit

set_option autoImplicit false

theorem slot_eq_some_iff {size place : Nat} {index : Int} :
    slot? size index = some place ↔ place < size ∧ (index = place ∨ index + size = place) := by
  constructor
  · intro named
    refine ⟨slot_lt named, ?_⟩
    unfold slot? at named
    split at named
    · split at named
      · have same := Option.some.inj named
        omega
      · cases named
    · split at named
      · have same := Option.some.inj named
        omega
      · cases named
  · intro named
    rcases named with ⟨inside, front | behind⟩
    · rw [front]
      exact slot_of_nat inside
    · unfold slot?
      rw [if_neg (by omega), if_pos (by omega), behind]
      simp

theorem item_mem {α : Type} {table : List α} {index : Int} {entry : α}
    (lookup : item? table index = some entry) : entry ∈ table := by
  obtain ⟨place, _, found⟩ := Option.bind_eq_some_iff.1 lookup
  exact List.mem_of_getElem? found

theorem item_map {α β : Type} (table : List α) (change : α → β) (index : Int) :
    item? (table.map change) index = (item? table index).map change := by
  unfold item?
  rw [List.length_map]
  cases slot? table.length index <;> simp

theorem amend_idle {α : Type} {table : List α} {index : Int} {change : α → α}
    (idle : ∀ entry ∈ item? table index, change entry = entry) :
    amend table index change = table := by
  unfold item? at idle
  unfold amend
  cases named : slot? table.length index with
  | none => rfl
  | some place =>
      rw [named] at idle
      apply List.ext_getElem?
      intro other
      change (table.modify place change)[other]? = _
      rw [List.getElem?_modify]
      by_cases same : place = other
      · subst same
        cases entry : table[place]? with
        | none => simp
        | some value => simp [idle value entry]
      · simp [same]

namespace Grammar.WellFormed

variable {grammar : Grammar} {α : Type} {table : List α}

theorem terminal_known (whole : grammar.WellFormed) {symbol : Symbol}
    (known : grammar.Knows symbol) (terminal : symbol.isTerminal) :
    symbol ∈ grammar.terminals := by
  rcases known with member | nonterminal
  · exact member
  · rw [whole.nonterminal_kind nonterminal] at terminal
    cases terminal

theorem terminal_of_index (whole : grammar.WellFormed) {left right : Symbol}
    (leftMember : left ∈ grammar.terminals) (rightMember : right ∈ grammar.terminals)
    (same : left.index = right.index) : left = right := by
  have found := item_at_index whole.terminals_numbered leftMember
  rw [same, item_at_index whole.terminals_numbered rightMember] at found
  exact (Option.some.inj found).symm

theorem slot_same_iff (whole : grammar.WellFormed) {left right : Symbol}
    (leftMember : left ∈ grammar.nonterminals) (rightMember : right ∈ grammar.nonterminals) :
    grammar.ruleSlot? left.index = grammar.ruleSlot? right.index ↔ left = right := by
  constructor
  · intro same
    obtain ⟨place, leftIndex, leftSlot⟩ := whole.rule_slot leftMember
    obtain ⟨other, rightIndex, rightSlot⟩ := whole.rule_slot rightMember
    rw [leftSlot, rightSlot, Option.some.injEq] at same
    exact whole.eq_of_same_index leftMember rightMember (by rw [leftIndex, rightIndex, same])
  · intro same
    rw [same]

theorem item_found (whole : grammar.WellFormed) (size : table.length = grammar.nonterminals.length)
    {symbol : Symbol} (member : symbol ∈ grammar.nonterminals) :
    ∃ entry ∈ table, item? table symbol.index = some entry := by
  obtain ⟨place, index, named⟩ := whole.rule_slot member
  have inside : place < table.length := by
    rw [size]
    exact slot_lt named
  refine ⟨table[place], List.getElem_mem inside, ?_⟩
  rw [index]
  exact item_of_nat inside

theorem item_after_amend (whole : grammar.WellFormed)
    (size : table.length = grammar.nonterminals.length) {target symbol : Symbol}
    (targetMember : target ∈ grammar.nonterminals) (member : symbol ∈ grammar.nonterminals)
    (change : α → α) :
    item? (amend table target.index change) symbol.index =
      if symbol = target then (item? table symbol.index).map change
      else item? table symbol.index := by
  have slots := whole.slot_same_iff member targetMember
  unfold ruleSlot? at slots
  rw [← size] at slots
  by_cases same : symbol = target
  · rw [if_pos same, item_amend_same (slots.2 same), same]
  · rw [if_neg same, item_amend_other (fun equal => same (slots.1 equal))]

/-- A table is told by what the nonterminals find in it. -/
theorem table_ext (whole : grammar.WellFormed) {other : List α}
    (size : table.length = grammar.nonterminals.length)
    (otherSize : other.length = grammar.nonterminals.length)
    (same : ∀ symbol ∈ grammar.nonterminals, item? table symbol.index = item? other symbol.index) :
    table = other := by
  apply List.ext_getElem (size.trans otherSize.symm)
  intro place inside otherInside
  have known : place < grammar.nonterminals.length := size ▸ inside
  have numbered := (numbered_table_item whole.nonterminals_numbered known).2
  have found := same _ (List.getElem_mem known)
  rw [numbered, item_of_nat inside, item_of_nat otherInside] at found
  exact Option.some.inj found

end Grammar.WellFormed

end GrammarKit
