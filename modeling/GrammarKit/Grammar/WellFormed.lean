import GrammarKit.Grammar.Basic

/-!
# Well-formed grammars

In a well-formed grammar the symbols of each table are numbered by their places, and productions
mention nothing but entries of the tables. An index of such a symbol then names the symbol itself.
-/

namespace GrammarKit

set_option autoImplicit false

/-- All symbols of a table are of one kind, each with the number of its place. -/
def NumberedTable (kind : SymbolKind) (table : List Symbol) : Prop :=
  ∀ entry ∈ table.zipIdx, entry.1.kind = kind ∧ entry.1.index = entry.2

instance (kind : SymbolKind) (table : List Symbol) : Decidable (NumberedTable kind table) :=
  inferInstanceAs (Decidable (∀ entry ∈ table.zipIdx, _))

theorem numbered_table_item {kind : SymbolKind} {table : List Symbol}
    (numbered : NumberedTable kind table) {place : Nat} (inside : place < table.length) :
    table[place].kind = kind ∧ table[place].index = place :=
  numbered (table[place], place) (List.mk_mem_zipIdx_iff_getElem?.2 (by simp [inside]))

/-- The index of an entry names the entry. -/
theorem item_at_index {kind : SymbolKind} {table : List Symbol}
    (numbered : NumberedTable kind table) {symbol : Symbol} (member : symbol ∈ table) :
    item? table symbol.index = some symbol := by
  obtain ⟨place, inside, rfl⟩ := List.getElem_of_mem member
  rw [(numbered_table_item numbered inside).2]
  exact item_of_nat inside

namespace Grammar

/-- An entry of one of the two tables. -/
def Knows (grammar : Grammar) (symbol : Symbol) : Prop :=
  symbol ∈ grammar.terminals ∨ symbol ∈ grammar.nonterminals

instance (grammar : Grammar) (symbol : Symbol) : Decidable (grammar.Knows symbol) :=
  inferInstanceAs (Decidable (_ ∨ _))

structure WellFormed (grammar : Grammar) : Prop where
  terminals_numbered : NumberedTable .terminal grammar.terminals
  nonterminals_numbered : NumberedTable .nonterminal grammar.nonterminals
  start_known : grammar.start ∈ grammar.nonterminals
  heads_known : ∀ production ∈ grammar.productions, production.lhs ∈ grammar.nonterminals
  bodies_known : ∀ production ∈ grammar.productions,
    ∀ symbol ∈ production.rhs, grammar.Knows symbol

theorem start_production_mem (grammar : Grammar) :
    grammar.startProduction ∈ grammar.productions := by
  simp [productions]

theorem well_formed_iff (grammar : Grammar) :
    grammar.WellFormed ↔
      NumberedTable .terminal grammar.terminals ∧
      NumberedTable .nonterminal grammar.nonterminals ∧
      grammar.start ∈ grammar.nonterminals ∧
      (∀ production ∈ grammar.productions, production.lhs ∈ grammar.nonterminals) ∧
      ∀ production ∈ grammar.productions, ∀ symbol ∈ production.rhs, grammar.Knows symbol :=
  ⟨fun whole => ⟨whole.1, whole.2, whole.3, whole.4, whole.5⟩,
    fun ⟨terminals, nonterminals, start, heads, bodies⟩ =>
      ⟨terminals, nonterminals, start, heads, bodies⟩⟩

instance (grammar : Grammar) : Decidable grammar.WellFormed :=
  decidable_of_iff _ (well_formed_iff grammar).symm

namespace WellFormed

variable {grammar : Grammar}

theorem terminal_kind (whole : grammar.WellFormed) {symbol : Symbol}
    (member : symbol ∈ grammar.terminals) : symbol.isTerminal := by
  obtain ⟨place, inside, rfl⟩ := List.getElem_of_mem member
  simp [Symbol.isTerminal, (numbered_table_item whole.terminals_numbered inside).1]

theorem nonterminal_kind (whole : grammar.WellFormed) {symbol : Symbol}
    (member : symbol ∈ grammar.nonterminals) : symbol.isTerminal = false := by
  obtain ⟨place, inside, rfl⟩ := List.getElem_of_mem member
  simp [Symbol.isTerminal, (numbered_table_item whole.nonterminals_numbered inside).1]

theorem nonterminal_known (whole : grammar.WellFormed) {symbol : Symbol}
    (known : grammar.Knows symbol) (nonterminal : symbol.isTerminal = false) :
    symbol ∈ grammar.nonterminals := by
  rcases known with terminal | member
  · rw [whole.terminal_kind terminal] at nonterminal
    cases nonterminal
  · exact member

theorem augmented_start_known (whole : grammar.WellFormed) :
    grammar.augmentedStart ∈ grammar.nonterminals :=
  whole.heads_known _ grammar.start_production_mem

/-- The place of a nonterminal of the grammar is its index. -/
theorem rule_slot (whole : grammar.WellFormed) {symbol : Symbol}
    (member : symbol ∈ grammar.nonterminals) :
    ∃ place : Nat, symbol.index = place ∧ grammar.ruleSlot? symbol.index = some place := by
  obtain ⟨place, inside, rfl⟩ := List.getElem_of_mem member
  have numbered := (numbered_table_item whole.nonterminals_numbered inside).2
  exact ⟨place, numbered, by rw [numbered]; exact slot_of_nat inside⟩

/-- Nonterminals of a grammar are told apart by their indices. -/
theorem eq_of_same_index (whole : grammar.WellFormed) {left right : Symbol}
    (leftMember : left ∈ grammar.nonterminals) (rightMember : right ∈ grammar.nonterminals)
    (same : left.index = right.index) : left = right := by
  have found := item_at_index whole.nonterminals_numbered leftMember
  rw [same, item_at_index whole.nonterminals_numbered rightMember] at found
  exact (Option.some.inj found).symm

end WellFormed

end Grammar

end GrammarKit
