import GrammarKit.Analysis.View
import GrammarKit.Proofs.Build.Represented
import GrammarKit.Proofs.First.Exact
import GrammarKit.Proofs.Registers

/-!
# FIRST tables read from their frames

A frame is filled row by row through records that are keyed by names, and nullability is one more
column of its own name. The terminals of a built grammar are told apart by their names, so each
column of a terminal shows the terminal at its place. Nothing keeps a token from bearing the name of
the last column, though. Such a token leaves its column to nullability.
-/

namespace GrammarKit

set_option autoImplicit false

namespace Grammar

variable {grammar : Grammar}

theorem membership_found (apart : (grammar.terminals.map (·.name)).Nodup) {terminal : Symbol}
    (member : terminal ∈ grammar.terminals) (tokens : IndexSet) :
    (grammar.membershipRecord tokens).find? terminal.name =
      some (decide (terminal.index ∈ tokens)) := by
  have once : ((grammar.terminals.map fun terminal =>
      (terminal.name, decide (terminal.index ∈ tokens))).map (·.1)).Nodup := by
    rw [List.map_map]
    exact apart
  apply Register.find_eq_some_iff.2
  unfold membershipRecord
  rw [Register.entries_of_pairs once]
  exact List.mem_map_of_mem member

end Grammar

namespace FirstTable

variable {grammar : Grammar} {table : FirstTable}

/-- What a row shows of a terminal. -/
def shown (first : First) (terminal : Symbol) : Bool :=
  if terminal.name = emptySequence then first.nullable else decide (terminal.index ∈ first.tokens)

def shownRow (grammar : Grammar) (first : First) : List Bool :=
  grammar.terminals.map (shown first) ++ [first.nullable]

theorem read_row (apart : (grammar.terminals.map (·.name)).Nodup) (first : First) :
    readColumns (grammar.terminals.map (·.name) ++ [emptySequence])
      ((grammar.membershipRecord first.tokens).put emptySequence first.nullable) =
        shownRow grammar first := by
  unfold readColumns shownRow
  rw [List.map_append, List.map_map]
  congr 1
  · apply List.map_congr_left
    intro terminal member
    simp only [Function.comp, Register.find_put, Grammar.membership_found apart member, shown]
    split <;> rfl
  · simp [Register.find_put]

theorem frame_eq (whole : grammar.WellFormed)
    (apart : (grammar.terminals.map (·.name)).Nodup)
    (size : table.entries.length = grammar.nonterminals.length) :
    table.frame grammar = .ok {
      columns := grammar.terminals.map (·.name) ++ [emptySequence]
      index := grammar.nonterminals.map (·.name)
      rows := grammar.nonterminals.map fun symbol => shownRow grammar (table.entry symbol) } := by
  have rows : ∀ symbol ∈ grammar.nonterminals, (do
      let first ← require (item? table.entries symbol.index) .outsideTable
      let record := (grammar.membershipRecord first.tokens).put emptySequence first.nullable
      return readColumns (grammar.terminals.map (·.name) ++ [emptySequence]) record
        : Except Fault (List Bool)) = .ok (shownRow grammar (table.entry symbol)) := by
    intro symbol member
    rw [entry_of_nonterminal whole size member, ← read_row apart]
    rfl
  unfold frame
  simp only [except_map_m_ok rows]
  rfl

end FirstTable

namespace Declarations

variable {declarations : Declarations} {variant : Variant} {grammar : Grammar}

/-- The frame of a built grammar has a row for each nonterminal and a column for each terminal, and
shows the table but for the column of a token that is named like the column of nullability. -/
theorem first_frame_shows_table (built : declarations.build variant = .ok grammar) :
    ∃ (table : FirstTable) (frame : Frame String Bool),
      (FirstTable.ofGrammar grammar).outcome = .ok table ∧
      table.frame grammar = .ok frame ∧
      frame.columns = grammar.terminals.map (·.name) ++ [emptySequence] ∧
      frame.index = grammar.nonterminals.map (·.name) ∧
      frame.rows.length = grammar.nonterminals.length ∧
      ∀ (place : Nat) (symbol : Symbol), grammar.nonterminals[place]? = some symbol →
        ∃ (first : First) (row : List Bool),
          table.ofSymbol symbol = .ok first ∧ frame.rows[place]? = some row ∧
          row.length = grammar.terminals.length + 1 ∧
          (∀ (column : Nat) (terminal : Symbol), grammar.terminals[column]? = some terminal →
            row[column]? = some (if terminal.name = emptySequence then first.nullable
              else decide (terminal.index ∈ first.tokens))) ∧
          row[grammar.terminals.length]? = some first.nullable := by
  have whole := well_formed_of_build built
  have size := (FirstTable.settled_sound whole).size
  refine ⟨_, _, FirstTable.of_grammar_outcome whole,
    FirstTable.frame_eq whole (terminal_names_distinct_of_build built) size, rfl, rfl,
    List.length_map _, ?_⟩
  intro place symbol listed
  have member := List.mem_of_getElem? listed
  refine ⟨_, FirstTable.shownRow grammar ((FirstTable.settled grammar).1.entry symbol),
    FirstTable.of_symbol_eq whole size (Or.inr member), ?_, ?_, ?_, ?_⟩
  · rw [List.getElem?_map, listed]
    rfl
  · simp [FirstTable.shownRow]
  · intro column terminal there
    have inside : column < grammar.terminals.length := (List.getElem?_eq_some_iff.1 there).1
    unfold FirstTable.shownRow
    rw [List.getElem?_append_left (by simpa using inside), List.getElem?_map, there]
    rfl
  · simp [FirstTable.shownRow]

theorem clashing_frame_shows_implicit_rule :
    clashingDeclarations.build .eco = .ok clashing ∧
      ∃ (table : FirstTable) (frame : Frame String Bool) (row : List Bool),
        (FirstTable.ofGrammar clashing).outcome = .ok table ∧
        table.frame clashing = .ok frame ∧ frame.columns = ["a", "w", "+", "$", "ϵ"] ∧
        frame.rows[4]? = some row ∧ row[0]? = some false ∧ row[1]? = some true ∧
        row[4]? = some true := by
  obtain ⟨table, frame, made, framed, columns, _, _, rows⟩ := first_frame_shows_table clashing_built
  obtain ⟨first, row, found, here, _, cells, last⟩ := rows 4 ⟨.nonterminal, 4, "~'"⟩ rfl
  have outcome : (FirstTable.ofGrammar clashing).outcome = .ok ⟨[⟨.ofList [0, 2], false⟩,
      ⟨∅, false⟩, ⟨∅, true⟩, ⟨.ofList [0, 2], false⟩, ⟨.singleton 1, true⟩,
      ⟨.ofList [0, 1, 2], false⟩]⟩ := by decide +kernel
  obtain rfl := Except.ok.inj (outcome.symm.trans made)
  obtain rfl : ⟨.singleton 1, true⟩ = first := Except.ok.inj found
  refine ⟨clashing_built, _, frame, row, made, framed, columns, here, ?_, ?_, last⟩
  · exact (cells 0 ⟨.terminal, 0, "a"⟩ rfl).trans (by decide)
  · exact (cells 1 ⟨.terminal, 1, "w"⟩ rfl).trans (by decide)

section Hidden

/-- One token, named like the empty sequence. -/
def blankLetterDeclarations : Declarations where
  rules := [⟨"S", [⟨[.token "ϵ"], none⟩]⟩]
  tokens := ["ϵ"]

def blankLetter : Grammar where
  variant := .plain
  tokens := [⟨.terminal, 0, "ϵ"⟩]
  eof := ⟨.terminal, 1, "$"⟩
  nonterminals := [⟨.nonterminal, 0, "S"⟩, ⟨.nonterminal, 1, "S'"⟩]
  leading := [⟨0, ⟨.nonterminal, 0, "S"⟩, [⟨.terminal, 0, "ϵ"⟩], none⟩]
  startProduction :=
    ⟨1, ⟨.nonterminal, 1, "S'"⟩, [⟨.nonterminal, 0, "S"⟩, ⟨.terminal, 1, "$"⟩], none⟩
  start := ⟨.nonterminal, 0, "S"⟩
  implicitRule := none
  precedences := ∅
  errorTexts := ∅

theorem blank_letter_built : blankLetterDeclarations.build .plain = .ok blankLetter := rfl

/-- The token begins each sentence, and no row shows it. -/
theorem blank_letter_not_shown :
    blankLetterDeclarations.build .plain = .ok blankLetter ∧
      ∃ table frame, (FirstTable.ofGrammar blankLetter).outcome = .ok table ∧
        table.frame blankLetter = .ok frame ∧
        frame.columns = ["ϵ", "$", "ϵ"] ∧ frame.index = ["S", "S'"] ∧
        frame.rows = [[false, false, false], [false, false, false]] ∧
        ∃ first, table.ofSymbol ⟨.nonterminal, 0, "S"⟩ = .ok first ∧
          0 ∈ first.tokens ∧ first.nullable = false := by
  refine ⟨blank_letter_built, ⟨[⟨SortedSet.singleton 0, false⟩, ⟨SortedSet.singleton 0, false⟩]⟩,
    _, by decide +kernel, rfl, rfl, rfl, by decide +kernel, _, rfl, by decide, rfl⟩

end Hidden

end Declarations

end GrammarKit
