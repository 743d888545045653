import GrammarKit.Analysis.First
import GrammarKit.Proofs.Derivations
import GrammarKit.Proofs.Outcomes
import GrammarKit.Proofs.Saturation
import GrammarKit.Proofs.Tables

/-!
# Scans of symbol sequences

Where every symbol is known, looking a sequence up in a table is a plain scan that cannot fail. A
scan of two sequences one behind the other is put together from the scans of both, and a step of
the analysis changes the entry of one head only.
-/

namespace GrammarKit

set_option autoImplicit false

namespace First

/-- What can come first where one sequence stands behind another. -/
def andThen (left right : First) : First :=
  if left.nullable then ⟨left.tokens ∪ right.tokens, right.nullable⟩ else left

theorem mem_and_then {left right : First} {index : Int} :
    index ∈ (left.andThen right).tokens ↔
      index ∈ left.tokens ∨ left.nullable ∧ index ∈ right.tokens := by
  unfold andThen
  split <;> simp_all

theorem nullable_and_then (left right : First) :
    (left.andThen right).nullable = (left.nullable && right.nullable) := by
  unfold andThen
  split <;> simp_all

structure Within (left right : First) : Prop where
  tokens : ∀ index ∈ left.tokens, index ∈ right.tokens
  nullable : left.nullable → right.nullable

theorem within_of_either_eq {known found : First} (same : known.either found = known) :
    found.Within known := by
  constructor
  · intro index member
    rw [← same]
    exact SortedSet.mem_union.2 (Or.inr member)
  · intro vanishes
    rw [← same]
    simp [either, vanishes]

def rank (entry : First) : Nat := entry.tokens.size + entry.nullable.toNat

theorem either_grows (found known : First) :
    known.either found = known ∨ known.rank < (known.either found).rank := by
  have included : ∀ index ∈ known.tokens, index ∈ known.tokens ∪ found.tokens :=
    fun index member => SortedSet.mem_union.2 (Or.inl member)
  rcases SortedSet.eq_or_size_lt included with same | more
  · obtain ⟨tokens, nullable⟩ := known
    simp only [either, rank, mk.injEq]
    rw [same]
    cases nullable <;> cases found.nullable <;> simp
  · right
    have grown : known.nullable.toNat ≤ (known.nullable || found.nullable).toNat := by
      cases known.nullable <;> simp
    simp only [either, rank]
    omega

end First

namespace FirstTable

variable {grammar : Grammar} {table : FirstTable}

/-- The entry of a symbol, empty where the table has none. -/
def entry (table : FirstTable) (symbol : Symbol) : First :=
  if symbol.isTerminal then First.ofTerminal symbol.index
  else (item? table.entries symbol.index).getD First.impossible

def scan (table : FirstTable) : List Symbol → First
  | [] => First.empty
  | symbol :: rest => (table.entry symbol).andThen (table.scan rest)

theorem mem_scan_cons {symbol : Symbol} {rest : List Symbol} {index : Int} :
    index ∈ (table.scan (symbol :: rest)).tokens ↔
      index ∈ (table.entry symbol).tokens ∨
        (table.entry symbol).nullable ∧ index ∈ (table.scan rest).tokens := First.mem_and_then

theorem nullable_scan_cons (symbol : Symbol) (rest : List Symbol) :
    (table.scan (symbol :: rest)).nullable =
      ((table.entry symbol).nullable && (table.scan rest).nullable) :=
  First.nullable_and_then _ _

theorem nullable_scan_append (left right : List Symbol) :
    (table.scan (left ++ right)).nullable =
      ((table.scan left).nullable && (table.scan right).nullable) := by
  induction left with
  | nil => simp [scan, First.empty]
  | cons symbol rest ih => simp [nullable_scan_cons, ih, Bool.and_assoc]

theorem mem_scan_append {left right : List Symbol} {index : Int} :
    index ∈ (table.scan (left ++ right)).tokens ↔
      index ∈ (table.scan left).tokens ∨
        (table.scan left).nullable ∧ index ∈ (table.scan right).tokens := by
  induction left with
  | nil => simp [scan, First.empty]
  | cons symbol rest ih =>
      simp only [List.cons_append, mem_scan_cons, ih, nullable_scan_cons, Bool.and_eq_true]
      tauto

theorem entry_of_terminal {symbol : Symbol} (terminal : symbol.isTerminal) :
    table.entry symbol = First.ofTerminal symbol.index := by
  rw [entry, if_pos terminal]

theorem entry_of_item {symbol : Symbol} {found : First} (nonterminal : symbol.isTerminal = false)
    (lookup : item? table.entries symbol.index = some found) : table.entry symbol = found := by
  rw [entry, if_neg (by simp [nonterminal]), lookup]
  rfl

section Lookup

variable (whole : grammar.WellFormed) (size : table.entries.length = grammar.nonterminals.length)

include whole size

theorem entry_of_nonterminal {symbol : Symbol} (member : symbol ∈ grammar.nonterminals) :
    item? table.entries symbol.index = some (table.entry symbol) := by
  obtain ⟨found, _, lookup⟩ := whole.item_found size member
  rw [lookup, entry_of_item (whole.nonterminal_kind member) lookup]

theorem of_symbol_eq {symbol : Symbol} (known : grammar.Knows symbol) :
    table.ofSymbol symbol = .ok (table.entry symbol) := by
  unfold ofSymbol
  by_cases terminal : symbol.isTerminal
  · rw [if_pos terminal, entry_of_terminal terminal]
    rfl
  · have member := whole.nonterminal_known known (by simpa using terminal)
    rw [if_neg terminal, entry_of_nonterminal whole size member]
    rfl

theorem is_nullable_eq {symbol : Symbol} (known : grammar.Knows symbol) :
    table.isNullable symbol = .ok (table.entry symbol).nullable := by
  unfold isNullable
  by_cases terminal : symbol.isTerminal
  · rw [if_pos terminal, entry_of_terminal terminal]
    rfl
  · rw [if_neg terminal, of_symbol_eq whole size known]
    rfl

theorem of_sequence_eq {form : List Symbol} (known : grammar.KnowsAll form) :
    table.ofSequence form = .ok (table.scan form) := by
  induction form with
  | nil => rfl
  | cons symbol rest ih =>
      rw [ofSequence, of_symbol_eq whole size (known symbol (by simp)), scan, First.andThen]
      change (if _ then _ else _) = _
      by_cases vanishes : (table.entry symbol).nullable
      · rw [if_pos vanishes, if_pos vanishes, ih known.tail]
        rfl
      · rw [if_neg vanishes, if_neg vanishes]
        rfl

theorem learn_eq {production : Production} (member : production ∈ grammar.productions) :
    table.learn production =
      ⟨amend table.entries production.lhs.index (·.either (table.scan production.rhs))⟩ := by
  unfold learn
  rw [of_sequence_eq whole size (whole.body_known member)]

theorem entry_after_learn {production : Production} (member : production ∈ grammar.productions)
    {symbol : Symbol} (among : symbol ∈ grammar.nonterminals) :
    (table.learn production).entry symbol =
      if symbol = production.lhs then (table.entry symbol).either (table.scan production.rhs)
      else table.entry symbol := by
  have lookup := whole.item_after_amend size (whole.heads_known production member) among
    (·.either (table.scan production.rhs))
  rw [entry_of_nonterminal whole size among] at lookup
  rw [learn_eq whole size member]
  apply entry_of_item (whole.nonterminal_kind among)
  apply lookup.trans
  split <;> rfl

end Lookup

theorem size_after_learn (table : FirstTable) (production : Production) :
    (table.learn production).entries.length = table.entries.length := by
  unfold learn
  split <;> simp

end FirstTable

end GrammarKit
