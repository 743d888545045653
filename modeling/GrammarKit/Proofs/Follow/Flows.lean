import GrammarKit.Analysis.Follow
import GrammarKit.Proofs.First.Exact

/-!
# Flows between FOLLOW sets

With exact FIRST sets every occurrence of a nonterminal in a production is a flow that can be
computed and routed. An occurrence in a longer sequence is an occurrence in one of its parts with
more symbols behind it, which is how an occurrence is traced through the steps of a derivation.
-/

namespace GrammarKit

set_option autoImplicit false

theorem occurrences_append (left right : List Symbol) :
    occurrences (left ++ right) =
      (occurrences left).map (fun occurrence => (occurrence.1, occurrence.2 ++ right)) ++
        occurrences right := by
  induction left with
  | nil => rfl
  | cons symbol rest ih =>
      simp only [List.cons_append, occurrences]
      split <;> simp [ih]

theorem mem_occurrences_append {left right : List Symbol} {occurrence : Symbol × List Symbol} :
    occurrence ∈ occurrences (left ++ right) ↔
      (∃ rest, (occurrence.1, rest) ∈ occurrences left ∧ occurrence.2 = rest ++ right) ∨
        occurrence ∈ occurrences right := by
  obtain ⟨symbol, behind⟩ := occurrence
  rw [occurrences_append, List.mem_append, List.mem_map]
  constructor
  · intro place
    rcases place with ⟨⟨inner, rest⟩, member, equal⟩ | member
    · cases equal
      exact Or.inl ⟨rest, member, rfl⟩
    · exact Or.inr member
  · intro place
    rcases place with ⟨rest, member, rfl⟩ | member
    · exact Or.inl ⟨(symbol, rest), member, rfl⟩
    · exact Or.inr member

theorem occurrences_of_nonterminal {symbol : Symbol} (nonterminal : symbol.isTerminal = false)
    (rest : List Symbol) : occurrences (symbol :: rest) = (symbol, rest) :: occurrences rest := by
  simp [occurrences, Symbol.isNonterminal, nonterminal]

theorem occurrence_splits {form : List Symbol} {occurrence : Symbol × List Symbol}
    (member : occurrence ∈ occurrences form) :
    occurrence.1.isTerminal = false ∧
      ∃ before, form = before ++ occurrence.1 :: occurrence.2 := by
  induction form with
  | nil => cases member
  | cons symbol rest ih =>
      simp only [occurrences] at member
      split at member
      · next nonterminal =>
          rcases List.mem_cons.1 member with rfl | later
          · exact ⟨by simpa [Symbol.isNonterminal] using nonterminal, [], rfl⟩
          · obtain ⟨kind, before, rfl⟩ := ih later
            exact ⟨kind, symbol :: before, rfl⟩
      · obtain ⟨kind, before, rfl⟩ := ih member
        exact ⟨kind, symbol :: before, rfl⟩

theorem occurrence_of_split {symbol : Symbol} (nonterminal : symbol.isTerminal = false)
    (before rest : List Symbol) : (symbol, rest) ∈ occurrences (before ++ symbol :: rest) := by
  apply mem_occurrences_append.2
  right
  rw [occurrences_of_nonterminal nonterminal]
  exact List.mem_cons_self

namespace Flow

variable {grammar : Grammar} {firsts : FirstTable}

/-- The flow of an occurrence in a production. -/
def ofOccurrence (firsts : FirstTable) (production : Production)
    (occurrence : Symbol × List Symbol) : Flow where
  target := occurrence.1.index
  tokens := (firsts.scan occurrence.2).tokens
  source := if (firsts.scan occurrence.2).nullable then some production.lhs.index else none

def all (grammar : Grammar) (firsts : FirstTable) : List Flow :=
  grammar.productions.flatMap fun production =>
    (occurrences production.rhs).map (ofOccurrence firsts production)

theorem mem_all {flow : Flow} :
    flow ∈ all grammar firsts ↔ ∃ production ∈ grammar.productions,
      ∃ occurrence ∈ occurrences production.rhs,
        ofOccurrence firsts production occurrence = flow := by
  simp [all, List.mem_flatMap]

section Known

variable (whole : grammar.WellFormed) {production : Production}
  (member : production ∈ grammar.productions) {occurrence : Symbol × List Symbol}
  (occurs : occurrence ∈ occurrences production.rhs)

include whole member occurs

theorem rest_known : grammar.KnowsAll occurrence.2 := by
  obtain ⟨_, before, shape⟩ := occurrence_splits occurs
  have body := whole.body_known member
  rw [shape] at body
  exact body.right.tail

theorem target_known : occurrence.1 ∈ grammar.nonterminals := by
  obtain ⟨nonterminal, before, shape⟩ := occurrence_splits occurs
  have body := whole.body_known member
  apply whole.nonterminal_known (body occurrence.1 _) nonterminal
  rw [shape]
  simp

theorem along_eq (size : firsts.entries.length = grammar.nonterminals.length) :
    along firsts production occurrence = .ok (ofOccurrence firsts production occurrence) := by
  unfold along
  rw [FirstTable.of_sequence_eq whole size (rest_known whole member occurs)]
  rfl

theorem routed :
    (ofOccurrence firsts production occurrence).isRouted grammar.nonterminals.length := by
  obtain ⟨_, _, target⟩ := whole.rule_slot (target_known whole member occurs)
  obtain ⟨_, _, source⟩ := whole.rule_slot (whole.heads_known production member)
  unfold Grammar.ruleSlot? at target source
  unfold isRouted ofOccurrence
  by_cases nullable : (firsts.scan occurrence.2).nullable <;> simp [nullable, target, source]

end Known

theorem of_grammar_eq (whole : grammar.WellFormed)
    (size : firsts.entries.length = grammar.nonterminals.length) :
    ofGrammar grammar firsts = .ok (all grammar firsts) := by
  have flows : (grammar.productions.mapM fun production =>
      (occurrences production.rhs).mapM (along firsts production)) =
        .ok (grammar.productions.map fun production =>
          (occurrences production.rhs).map (ofOccurrence firsts production)) := by
    apply except_map_m_ok
    intro production member
    apply except_map_m_ok
    intro occurrence occurs
    exact along_eq whole member occurs size
  unfold ofGrammar
  rw [flows]
  rfl

end Flow

end GrammarKit
