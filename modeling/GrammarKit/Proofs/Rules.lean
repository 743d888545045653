import GrammarKit.Proofs.Tables
import Mathlib.Data.List.Nodup
import Mathlib.Data.List.Perm.Basic

/-!
# Rules divide the productions

In a well-formed grammar the rule of a nonterminal holds the productions that it is the head of, in
order, and each production belongs to one rule. Symbols that some production mentions are found in
their tables under their indices.
-/

namespace GrammarKit

set_option autoImplicit false

theorem NumberedTable.nodup {kind : SymbolKind} {table : List Symbol}
    (numbered : NumberedTable kind table) : table.Nodup := by
  apply List.nodup_iff_getElem?_ne_getElem?.2
  intro left right before inside same
  rw [List.getElem?_eq_getElem inside, List.getElem?_eq_getElem (Nat.lt_trans before inside)] at same
  have leftIndex := (numbered_table_item numbered (Nat.lt_trans before inside)).2
  have rightIndex := (numbered_table_item numbered inside).2
  rw [Option.some.injEq] at same
  rw [same, rightIndex] at leftIndex
  omega

theorem NumberedTable.ascending {kind : SymbolKind} {table : List Symbol}
    (numbered : NumberedTable kind table) :
    table.Pairwise fun earlier later => earlier.index < later.index := by
  rw [List.pairwise_iff_getElem]
  intro left right leftInside rightInside before
  rw [(numbered_table_item numbered leftInside).2, (numbered_table_item numbered rightInside).2]
  omega

theorem groups_perm {κ ι : Type} [DecidableEq κ] (key : ι → κ) {keys : List κ} (apart : keys.Nodup)
    {items : List ι} (covered : ∀ item ∈ items, key item ∈ keys) :
    (keys.flatMap fun wanted => items.filter fun item => key item = wanted).Perm items := by
  induction keys generalizing items with
  | nil =>
      cases items with
      | nil => exact List.Perm.refl _
      | cons item rest => cases covered item (by simp)
  | cons first rest ih =>
      rcases List.nodup_cons.1 apart with ⟨fresh, later⟩
      have others : ∀ item ∈ items.filter (fun item => !decide (key item = first)),
          key item ∈ rest := by
        intro item member
        rcases List.mem_filter.1 member with ⟨among, differs⟩
        rcases List.mem_cons.1 (covered item among) with same | listed
        · simp [same] at differs
        · exact listed
      -- The groups of the other keys lose nothing when the first group is taken out.
      have same : (rest.flatMap fun wanted => items.filter fun item => key item = wanted) =
          rest.flatMap fun wanted => (items.filter fun item => !decide (key item = first)).filter
            fun item => key item = wanted := by
        apply List.flatMap_congr
        intro wanted listed
        rw [List.filter_filter]
        apply List.filter_congr
        intro item _
        by_cases hit : key item = wanted
        · have differs : key item ≠ first := by
            intro equal
            exact fresh (equal ▸ hit ▸ listed)
          simp [hit, hit ▸ differs]
        · simp [hit]
      rw [List.flatMap_cons, same]
      exact ((ih later others).append_left _).trans
        (List.filter_append_perm (fun item => decide (key item = first)) items)

namespace Grammar.WellFormed

variable {grammar : Grammar}

theorem productions_at_index (whole : grammar.WellFormed) {symbol : Symbol}
    (member : symbol ∈ grammar.nonterminals) {place : Nat}
    (named : grammar.ruleSlot? symbol.index = some place) :
    grammar.productionsAt place =
      grammar.productions.filter fun production => production.lhs = symbol := by
  unfold productionsAt
  apply List.filter_congr
  intro production listed
  rw [← named]
  have heads := whole.slot_same_iff (whole.heads_known production listed) member
  simp only [heads]

/-- The rule of a nonterminal holds the productions that it is the head of, in order. -/
theorem rule_of_nonterminal (whole : grammar.WellFormed) {symbol : Symbol}
    (member : symbol ∈ grammar.nonterminals) :
    grammar.ruleOf symbol =
      .ok ⟨symbol, grammar.productions.filter fun production => production.lhs = symbol⟩ := by
  obtain ⟨place, index, named⟩ := whole.rule_slot member
  have inside : place < grammar.nonterminals.length := slot_lt named
  have entry : grammar.nonterminals[place] = symbol := by
    have found := item_at_index whole.nonterminals_numbered member
    rw [index, item_of_nat inside] at found
    exact Option.some.inj found
  have listed : place < grammar.rules.length := by
    rw [length_rules]
    exact inside
  have rule : grammar.rules[place] = ⟨symbol, grammar.productionsAt place⟩ := by
    simp [rules, entry]
  unfold ruleOf Grammar.rule
  rw [if_neg (by simp [whole.nonterminal_kind member]), index, item_of_nat listed, rule,
    whole.productions_at_index member named]
  rfl

theorem rules_eq (whole : grammar.WellFormed) :
    grammar.rules = grammar.nonterminals.map fun symbol =>
      ⟨symbol, grammar.productions.filter fun production => production.lhs = symbol⟩ := by
  apply List.ext_getElem (by simp)
  intro place _ inside
  rw [List.length_map] at inside
  have member := List.getElem_mem inside
  have index := (numbered_table_item whole.nonterminals_numbered inside).2
  have named : grammar.ruleSlot? grammar.nonterminals[place].index = some place := by
    rw [index]
    exact slot_of_nat inside
  simp [rules, whole.productions_at_index member named]

theorem rules_partition (whole : grammar.WellFormed) :
    (grammar.rules.flatMap (·.productions)).Perm grammar.productions := by
  rw [whole.rules_eq, List.flatMap_map]
  exact groups_perm (fun production : Production => production.lhs)
    whole.nonterminals_numbered.nodup whole.heads_known

end Grammar.WellFormed

namespace Grammar

/-- The productions are numbered by their places. -/
def ProductionsNumbered (grammar : Grammar) : Prop :=
  ∀ (place : Nat) (inside : place < grammar.productions.length),
    grammar.productions[place].index = place

theorem ProductionsNumbered.item {grammar : Grammar} (numbered : grammar.ProductionsNumbered)
    {production : Production} (member : production ∈ grammar.productions) :
    item? grammar.productions production.index = some production := by
  obtain ⟨place, inside, rfl⟩ := List.getElem_of_mem member
  rw [numbered place inside]
  exact item_of_nat inside

theorem ProductionsNumbered.eq_of_same_index {grammar : Grammar}
    (numbered : grammar.ProductionsNumbered) {left right : Production}
    (leftMember : left ∈ grammar.productions) (rightMember : right ∈ grammar.productions)
    (same : left.index = right.index) : left = right := by
  have found := numbered.item leftMember
  rw [same, numbered.item rightMember] at found
  exact (Option.some.inj found).symm

theorem ProductionsNumbered.ascending {grammar : Grammar} (numbered : grammar.ProductionsNumbered) :
    grammar.productions.Pairwise fun earlier later => earlier.index < later.index := by
  rw [List.pairwise_iff_getElem]
  intro left right leftInside rightInside before
  rw [numbered left leftInside, numbered right rightInside]
  omega

/-- The entry of the table for symbols of its kind is the symbol itself. -/
def Listed (grammar : Grammar) (symbol : Symbol) : Prop :=
  item? (if symbol.isTerminal then grammar.terminals else grammar.nonterminals) symbol.index =
    some symbol

theorem WellFormed.listed {grammar : Grammar} (whole : grammar.WellFormed) {symbol : Symbol}
    (known : grammar.Knows symbol) : grammar.Listed symbol := by
  unfold Listed
  rcases known with terminal | nonterminal
  · rw [if_pos (whole.terminal_kind terminal)]
    exact item_at_index whole.terminals_numbered terminal
  · rw [if_neg (by simp [whole.nonterminal_kind nonterminal])]
    exact item_at_index whole.nonterminals_numbered nonterminal

end Grammar

end GrammarKit
