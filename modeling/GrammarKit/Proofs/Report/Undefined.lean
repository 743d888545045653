import GrammarKit.Proofs.Report.HandBuilt

/-!
# Reports on undefined symbols

A grammar put together by hand may hold symbols of any kind, index and name. An occurrence is
undefined unless the symbol is the entry of the table for its kind at its own index, which excludes
every negative index. As soon as one occurrence is undefined, a validation makes no table and looks
at none that it was given: it reports the undefined occurrences in order, then the rules without
productions, then the tokens whose names nothing uses. The only places that are still looked up are
those of the heads, which tell the rules apart and may well be negative.
-/

namespace GrammarKit

set_option autoImplicit false

namespace Grammar

def table (grammar : Grammar) : SymbolKind → List Symbol
  | .terminal => grammar.terminals
  | .nonterminal => grammar.nonterminals

/-- The table for symbols of its kind holds the symbol at its own index. -/
def IsEntry (grammar : Grammar) (symbol : Symbol) : Prop :=
  ∃ place : Nat, symbol.index = place ∧ (grammar.table symbol.kind)[place]? = some symbol

/-- Each symbol of each production, the head in front of the right-hand side. -/
def occurrences (grammar : Grammar) : List (Production × Symbol) :=
  grammar.productions.flatMap fun production =>
    (production.lhs :: production.rhs).map fun symbol => (production, symbol)

/-- The head of some production has an index that names the place in the table of nonterminals,
counted from its front or from its end. -/
def Heads (grammar : Grammar) (place : Nat) : Prop :=
  ∃ production ∈ grammar.productions, production.lhs.index = place ∨
    production.lhs.index + grammar.nonterminals.length = place

instance (grammar : Grammar) : DecidablePred grammar.Heads := fun place =>
  inferInstanceAs (Decidable (∃ production ∈ grammar.productions, production.lhs.index = place ∨
    production.lhs.index + grammar.nonterminals.length = place))

/-- The name stands for a token in some right-hand side, or some production takes its precedence
from it. -/
def UsesName (grammar : Grammar) (name : String) : Prop :=
  ∃ production ∈ grammar.productions, production.precedence = some name ∨
    ∃ symbol ∈ production.rhs, symbol.kind = .terminal ∧ symbol ≠ grammar.eof ∧ symbol.name = name

instance (grammar : Grammar) : DecidablePred grammar.UsesName := fun name =>
  inferInstanceAs (Decidable (∃ production ∈ grammar.productions,
    production.precedence = some name ∨ ∃ symbol ∈ production.rhs,
      symbol.kind = .terminal ∧ symbol ≠ grammar.eof ∧ symbol.name = name))

variable {grammar : Grammar}

theorem table_of_kind (symbol : Symbol) : grammar.table symbol.kind =
    if symbol.isTerminal then grammar.terminals else grammar.nonterminals := by
  unfold Symbol.isTerminal
  cases symbol.kind <;> rfl

theorem defines_iff {symbol : Symbol} : grammar.defines symbol ↔ grammar.IsEntry symbol := by
  unfold defines IsEntry
  rw [table_of_kind, decide_eq_true_iff]
  constructor
  · intro defined
    exact ⟨symbol.index.toNat, by omega, defined.2⟩
  · intro entry
    rcases entry with ⟨place, index, found⟩
    rw [index]
    exact ⟨by omega, found⟩

instance (grammar : Grammar) : DecidablePred grammar.IsEntry := fun _ =>
  decidable_of_iff _ defines_iff

/-- The findings about undefined occurrences. -/
def strayFindings (grammar : Grammar) : List Diagnostic :=
  (grammar.occurrences.filter fun entry => ¬grammar.IsEntry entry.2).map fun entry =>
    .undefinedSymbol entry.2 entry.1

/-- The findings about nonterminals whose places no head names. -/
def headlessFindings (grammar : Grammar) : List Diagnostic :=
  (grammar.nonterminals.zipIdx.filter fun entry => ¬grammar.Heads entry.2).map fun entry =>
    .emptyRule entry.1

/-- The findings about tokens whose names are out of use. -/
def idleFindings (grammar : Grammar) : List Diagnostic :=
  (grammar.terminals.filter fun terminal =>
    terminal ≠ grammar.eof ∧ ¬grammar.UsesName terminal.name).map .unusedTerminal

/-- What is reported of a grammar with an undefined occurrence. -/
def strayReport (grammar : Grammar) : List Diagnostic :=
  grammar.strayFindings ++ grammar.headlessFindings ++ grammar.idleFindings

section Checks

theorem undefined_symbols_eq : grammar.undefinedSymbols = grammar.strayFindings := by
  unfold undefinedSymbols strayFindings occurrences
  rw [List.filter_flatMap, List.map_flatMap]
  apply List.flatMap_congr
  intro production _
  rw [List.filter_map, List.map_map]
  congr 1
  apply List.filter_congr
  intro symbol _
  rw [Bool.eq_iff_iff]
  simp [← defines_iff]

theorem mem_occurrences_iff {entry : Production × Symbol} :
    entry ∈ grammar.occurrences ↔
      entry.1 ∈ grammar.productions ∧ entry.2 ∈ entry.1.lhs :: entry.1.rhs := by
  unfold occurrences
  rw [List.mem_flatMap]
  constructor
  · intro member
    rcases member with ⟨production, listed, among⟩
    rcases List.mem_map.1 among with ⟨symbol, occurs, rfl⟩
    exact ⟨listed, occurs⟩
  · intro member
    exact ⟨entry.1, member.1, List.mem_map_of_mem member.2⟩

theorem stray_findings_nil_iff : grammar.strayFindings = [] ↔
    ∀ production ∈ grammar.productions, ∀ symbol ∈ production.lhs :: production.rhs,
      grammar.IsEntry symbol := by
  unfold strayFindings
  rw [List.map_eq_nil_iff, List.filter_eq_nil_iff]
  constructor
  · intro clean production listed symbol occurs
    simpa using clean (production, symbol) (mem_occurrences_iff.2 ⟨listed, occurs⟩)
  · intro entries entry among
    have member := mem_occurrences_iff.1 among
    simpa using entries entry.1 member.1 entry.2 member.2

theorem rule_is_empty_iff {symbol : Symbol} {place : Nat}
    (inside : place < grammar.nonterminals.length) :
    (Rule.mk symbol (grammar.productionsAt place)).isEmpty ↔ ¬grammar.Heads place := by
  unfold Rule.isEmpty productionsAt ruleSlot? Heads
  simp [slot_eq_some_iff, inside]

theorem empty_rules_eq : grammar.emptyRules = grammar.headlessFindings := by
  unfold emptyRules headlessFindings rules
  rw [List.filter_map, List.map_map]
  congr 1
  apply List.filter_congr
  intro entry among
  have inside : entry.2 < grammar.nonterminals.length := by
    simpa using List.snd_lt_of_mem_zipIdx among
  rw [Bool.eq_iff_iff, decide_eq_true_iff]
  exact rule_is_empty_iff inside

theorem mem_used_names {name : String} :
    name ∈ grammar.usedNames ↔ grammar.UsesName name := by
  unfold usedNames referencedTokenNames referencedTokens
  rw [SortedSet.mem_insert_all, SortedSet.mem_of_list]
  simp only [List.mem_map, List.mem_filter, List.mem_flatMap, List.mem_filterMap,
    decide_eq_true_eq]
  have terminal_iff : ∀ symbol : Symbol, symbol.isTerminal = true ↔ symbol.kind = .terminal := by
    intro symbol
    unfold Symbol.isTerminal
    cases symbol.kind <;> simp
  constructor
  · intro used
    rcases used with ⟨symbol, ⟨⟨production, listed, occurs⟩, kind, proper⟩, named⟩ | lent
    · exact ⟨production, listed, Or.inr ⟨symbol, occurs, (terminal_iff symbol).1 kind, proper, named⟩⟩
    · rcases lent with ⟨production, listed, named⟩
      exact ⟨production, listed, Or.inl named⟩
  · intro used
    rcases used with ⟨production, listed, lent | ⟨symbol, occurs, kind, proper, named⟩⟩
    · exact Or.inr ⟨production, listed, lent⟩
    · exact Or.inl
        ⟨symbol, ⟨⟨production, listed, occurs⟩, (terminal_iff symbol).2 kind, proper⟩, named⟩

theorem unused_terminals_eq : grammar.unusedTerminals = grammar.idleFindings := by
  change ((grammar.terminals.filter _).filter _).map _ = (grammar.terminals.filter _).map _
  rw [List.filter_filter]
  congr 1
  apply List.filter_congr
  intro terminal _
  rw [Bool.eq_iff_iff]
  simp [mem_used_names, and_comm]

end Checks

/-- An undefined occurrence leaves a report that tells every undefined occurrence in order, then
the nonterminals without productions and the tokens out of use, and nothing else. Where there is
none, no symbol is reported as undefined. -/
theorem undefined_occurrences_reported (grammar : Grammar) (prepared : PreparedTables) :
    ((∃ production ∈ grammar.productions, ∃ symbol ∈ production.lhs :: production.rhs,
        ¬grammar.IsEntry symbol) →
      grammar.validate prepared =
        ⟨.checksSkipped grammar.strayFindings.length ::
          grammar.strayReport.map (.finding .validation), .ok ⟨grammar.strayReport⟩⟩) ∧
    ((∀ production ∈ grammar.productions, ∀ symbol ∈ production.lhs :: production.rhs,
        grammar.IsEntry symbol) → grammar.undefinedSymbols = []) := by
  constructor
  · intro stray
    have undefined : grammar.undefinedSymbols ≠ [] := by
      rw [undefined_symbols_eq, Ne, stray_findings_nil_iff]
      rcases stray with ⟨production, listed, symbol, occurs, unknown⟩
      intro entries
      exact unknown (entries production listed symbol occurs)
    have reported := validate_of_undefined prepared undefined
    rwa [undefined_symbols_eq, empty_rules_eq, unused_terminals_eq] at reported
  · intro entries
    rw [undefined_symbols_eq]
    exact stray_findings_nil_iff.2 entries

section Strays

/-- Symbols beyond the table, at negative indices and under the name of another entry. The negative
head belongs to the last rule, `X` has no productions, `c` is in use by its name alone, and the
precedence is declared for a name of no symbol. -/
def strays : Grammar where
  variant := .plain
  tokens := [⟨.terminal, 0, "a"⟩, ⟨.terminal, 1, "b"⟩, ⟨.terminal, 2, "c"⟩, ⟨.terminal, 3, "k"⟩]
  eof := ⟨.terminal, 4, "$"⟩
  nonterminals := [⟨.nonterminal, 0, "S"⟩, ⟨.nonterminal, 1, "X"⟩, ⟨.nonterminal, 2, "S'"⟩]
  leading := [
    ⟨0, ⟨.nonterminal, 0, "S"⟩, [⟨.terminal, 0, "a"⟩, ⟨.nonterminal, 7, "Q"⟩], none⟩,
    ⟨1, ⟨.nonterminal, -1, "S'"⟩, [⟨.terminal, -5, "a"⟩], some "k"⟩,
    ⟨2, ⟨.nonterminal, 0, "S"⟩, [⟨.terminal, 1, "c"⟩, ⟨.terminal, 1, "c"⟩], none⟩]
  startProduction :=
    ⟨3, ⟨.nonterminal, 2, "S'"⟩, [⟨.nonterminal, 0, "S"⟩, ⟨.terminal, 4, "$"⟩], none⟩
  start := ⟨.nonterminal, 0, "S"⟩
  implicitRule := none
  precedences := .ofPairs [("x", ⟨1, .left⟩)]
  errorTexts := ∅

theorem strays_reported :
    assemble strays.terminals strays.nonterminals strays.productions strays.start
      strays.precedences strays.errorTexts = .ok strays ∧
    (∃ production ∈ strays.productions, ∃ symbol ∈ production.lhs :: production.rhs,
      ¬strays.IsEntry symbol) ∧
    (strays.validate {}).outcome = .ok ⟨[
      .undefinedSymbol ⟨.nonterminal, 7, "Q"⟩ strays.leading[0],
      .undefinedSymbol ⟨.nonterminal, -1, "S'"⟩ strays.leading[1],
      .undefinedSymbol ⟨.terminal, -5, "a"⟩ strays.leading[1],
      .undefinedSymbol ⟨.terminal, 1, "c"⟩ strays.leading[2],
      .undefinedSymbol ⟨.terminal, 1, "c"⟩ strays.leading[2],
      .emptyRule ⟨.nonterminal, 1, "X"⟩,
      .unusedTerminal ⟨.terminal, 1, "b"⟩]⟩ ∧
    (strayPrecedence []).undefinedSymbols = [] := by
  have stray : ∃ production ∈ strays.productions, ∃ symbol ∈ production.lhs :: production.rhs,
      ¬strays.IsEntry symbol := by
    decide
  have entries : ∀ production ∈ (strayPrecedence []).productions,
      ∀ symbol ∈ production.lhs :: production.rhs, (strayPrecedence []).IsEntry symbol := by
    decide
  refine ⟨rfl, stray, ?_, (undefined_occurrences_reported _ {}).2 entries⟩
  rw [(undefined_occurrences_reported strays {}).1 stray]
  decide +kernel

end Strays

end Grammar

end GrammarKit
