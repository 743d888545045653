import GrammarKit.Proofs.First.Scan

/-!
# FIRST sets are exact

A table is sound when all that it says can be derived, and closed when no production has anything to
add to it. Both together make it exact: a scan of any sequence finds the terminals that can begin
what the sequence derives, and whether it derives nothing. The passes keep soundness and end in a
closed table. Whether a nonterminal is reachable or productive has no part in this.
-/

namespace GrammarKit

set_option autoImplicit false

namespace Grammar

/-- Some form derived from this one begins with the terminal. -/
def Begins (grammar : Grammar) (form : List Symbol) (terminal : Symbol) : Prop :=
  ∃ rest, grammar.Derives form (terminal :: rest)

variable {grammar : Grammar}

theorem Begins.of_derives {form next : List Symbol} {terminal : Symbol}
    (derivation : grammar.Derives form next) (begins : grammar.Begins next terminal) :
    grammar.Begins form terminal := by
  obtain ⟨rest, later⟩ := begins
  exact ⟨rest, derivation.trans later⟩

theorem Begins.append {form : List Symbol} {terminal : Symbol}
    (begins : grammar.Begins form terminal) (after : List Symbol) :
    grammar.Begins (form ++ after) terminal := by
  obtain ⟨rest, derivation⟩ := begins
  exact ⟨rest ++ after, derivation.append .refl⟩

end Grammar

namespace FirstTable

variable {grammar : Grammar} {table : FirstTable}

structure Sound (grammar : Grammar) (table : FirstTable) : Prop where
  size : table.entries.length = grammar.nonterminals.length
  tokens : ∀ symbol ∈ grammar.nonterminals, ∀ index ∈ (table.entry symbol).tokens,
    ∃ terminal ∈ grammar.terminals, terminal.index = index ∧ grammar.Begins [symbol] terminal
  nullable : ∀ symbol ∈ grammar.nonterminals, (table.entry symbol).nullable →
    grammar.Derives [symbol] []

def Closed (grammar : Grammar) (table : FirstTable) : Prop :=
  ∀ production ∈ grammar.productions,
    (table.scan production.rhs).Within (table.entry production.lhs)

section Soundness

variable (whole : grammar.WellFormed)

include whole

theorem Sound.entry_vanishes (sound : Sound grammar table) {symbol : Symbol}
    (known : grammar.Knows symbol) (nullable : (table.entry symbol).nullable) :
    grammar.Derives [symbol] [] := by
  by_cases terminal : symbol.isTerminal
  · rw [entry_of_terminal terminal] at nullable
    cases nullable
  · have member := whole.nonterminal_known known (by simpa using terminal)
    exact sound.nullable symbol member nullable

theorem Sound.entry_begins (sound : Sound grammar table) {symbol : Symbol}
    (known : grammar.Knows symbol) {index : Int} (found : index ∈ (table.entry symbol).tokens) :
    ∃ terminal ∈ grammar.terminals, terminal.index = index ∧ grammar.Begins [symbol] terminal := by
  by_cases terminal : symbol.isTerminal
  · rw [entry_of_terminal terminal] at found
    obtain rfl := SortedSet.mem_singleton.1 found
    exact ⟨symbol, whole.terminal_known known terminal, rfl, [], .refl⟩
  · have member := whole.nonterminal_known known (by simpa using terminal)
    exact sound.tokens symbol member index found

theorem Sound.scan_vanishes (sound : Sound grammar table) {form : List Symbol}
    (known : grammar.KnowsAll form) (nullable : (table.scan form).nullable) :
    grammar.Derives form [] := by
  induction form with
  | nil => exact .refl
  | cons symbol rest ih =>
      rw [nullable_scan_cons, Bool.and_eq_true] at nullable
      have head := sound.entry_vanishes whole (known symbol (by simp)) nullable.1
      exact Grammar.Derives.append head (ih known.tail nullable.2)

theorem Sound.scan_begins (sound : Sound grammar table) {form : List Symbol}
    (known : grammar.KnowsAll form) {index : Int} (found : index ∈ (table.scan form).tokens) :
    ∃ terminal ∈ grammar.terminals, terminal.index = index ∧ grammar.Begins form terminal := by
  induction form with
  | nil => exact absurd found (SortedSet.not_mem_empty index)
  | cons symbol rest ih =>
      rcases mem_scan_cons.1 found with here | ⟨nullable, later⟩
      · obtain ⟨terminal, member, same, begins⟩ :=
          sound.entry_begins whole (known symbol (by simp)) here
        exact ⟨terminal, member, same, begins.append rest⟩
      · obtain ⟨terminal, member, same, begins⟩ := ih known.tail later
        have head := sound.entry_vanishes whole (known symbol (by simp)) nullable
        exact ⟨terminal, member, same,
          Grammar.Begins.of_derives (Grammar.Derives.append head .refl) begins⟩

theorem Sound.after_learn (sound : Sound grammar table) {production : Production}
    (member : production ∈ grammar.productions) : Sound grammar (table.learn production) := by
  have body := whole.body_known member
  have applied := Grammar.Derives.of_production member
  constructor
  · rw [size_after_learn, sound.size]
  · intro symbol among index found
    rw [entry_after_learn whole sound.size member among] at found
    split at found
    · next head =>
        subst head
        rcases SortedSet.mem_union.1 found with earlier | new
        · exact sound.tokens production.lhs among index earlier
        · obtain ⟨terminal, present, same, begins⟩ := sound.scan_begins whole body new
          exact ⟨terminal, present, same, begins.of_derives applied⟩
    · exact sound.tokens symbol among index found
  · intro symbol among nullable
    rw [entry_after_learn whole sound.size member among] at nullable
    split at nullable
    · next head =>
        subst head
        rcases Bool.or_eq_true_iff.1 nullable with earlier | new
        · exact sound.nullable production.lhs among earlier
        · exact applied.trans (sound.scan_vanishes whole body new)
    · exact sound.nullable symbol among nullable

end Soundness

/-- One step of a derivation allows nothing that the scan before it does not. -/
theorem Closed.scan_after_step (closed : Closed grammar table) {form next : List Symbol}
    (step : grammar.Step form next) : (table.scan next).Within (table.scan form) := by
  cases step with
  | @expand production member before after =>
      have added := closed production member
      constructor
      · intro index found
        simp only [mem_scan_append, nullable_scan_append, mem_scan_cons, Bool.and_eq_true]
          at found ⊢
        have tokens := added.tokens index
        have nullable := added.nullable
        tauto
      · intro vanishes
        simp only [nullable_scan_append, nullable_scan_cons, Bool.and_eq_true] at vanishes ⊢
        exact ⟨vanishes.1.1, added.nullable vanishes.1.2, vanishes.2⟩

theorem Closed.scan_after_derivation (closed : Closed grammar table) {form final : List Symbol}
    (derivation : grammar.Derives form final) : (table.scan final).Within (table.scan form) := by
  induction derivation with
  | refl => exact ⟨fun _ found => found, id⟩
  | tail _ last ih =>
      have step := closed.scan_after_step last
      exact ⟨fun index found => ih.tokens index (step.tokens index found),
        fun vanishes => ih.nullable (step.nullable vanishes)⟩

/-- What a scan of known symbols says is what can be derived. -/
structure Exact (grammar : Grammar) (table : FirstTable) : Prop where
  size : table.entries.length = grammar.nonterminals.length
  vanishes_iff : ∀ form, grammar.KnowsAll form →
    ((table.scan form).nullable ↔ grammar.Derives form [])
  begins_iff : ∀ form, grammar.KnowsAll form → ∀ terminal ∈ grammar.terminals,
    (terminal.index ∈ (table.scan form).tokens ↔ grammar.Begins form terminal)
  tokens_known : ∀ form, grammar.KnowsAll form → ∀ index ∈ (table.scan form).tokens,
    ∃ terminal ∈ grammar.terminals, terminal.index = index

theorem exact_of_closed (whole : grammar.WellFormed) (sound : Sound grammar table)
    (closed : Closed grammar table) : Exact grammar table := by
  refine ⟨sound.size, ?_, ?_, ?_⟩
  · intro form known
    refine ⟨sound.scan_vanishes whole known, ?_⟩
    intro derivation
    exact (closed.scan_after_derivation derivation).nullable rfl
  · intro form known terminal member
    constructor
    · intro found
      obtain ⟨other, present, same, begins⟩ := sound.scan_begins whole known found
      rwa [whole.terminal_of_index present member same] at begins
    · intro starts
      rcases starts with ⟨rest, derivation⟩
      apply (closed.scan_after_derivation derivation).tokens
      apply mem_scan_cons.2
      left
      rw [entry_of_terminal (whole.terminal_kind member)]
      exact SortedSet.mem_singleton.2 rfl
  · intro form known index found
    obtain ⟨terminal, member, same, _⟩ := sound.scan_begins whole known found
    exact ⟨terminal, member, same⟩

theorem Exact.scan_after_step (whole : grammar.WellFormed) (exact : Exact grammar table)
    {form next : List Symbol} (known : grammar.KnowsAll form) (step : grammar.Step form next) :
    (table.scan next).Within (table.scan form) := by
  have nextKnown := step.known whole known
  constructor
  · intro index found
    obtain ⟨terminal, member, rfl⟩ := exact.tokens_known next nextKnown index found
    have begins := (exact.begins_iff next nextKnown terminal member).1 found
    exact (exact.begins_iff form known terminal member).2 (begins.of_derives (.single step))
  · intro vanishes
    have derivation := (exact.vanishes_iff next nextKnown).1 vanishes
    exact (exact.vanishes_iff form known).2 (.head step derivation)

section Symbols

variable {symbol : Symbol}

theorem scan_singleton_tokens {index : Int} :
    index ∈ (table.scan [symbol]).tokens ↔ index ∈ (table.entry symbol).tokens := by
  rw [mem_scan_cons]
  simp [scan, First.empty]

theorem Exact.entry_vanishes_iff (exact : Exact grammar table) (known : grammar.Knows symbol) :
    (table.entry symbol).nullable ↔ grammar.Derives [symbol] [] := by
  rw [← exact.vanishes_iff [symbol] (.singleton known), nullable_scan_cons]
  simp [scan, First.empty]

theorem Exact.is_nullable_iff (whole : grammar.WellFormed) (exact : Exact grammar table)
    (known : grammar.Knows symbol) :
    table.isNullable symbol = .ok true ↔ grammar.Derives [symbol] [] := by
  rw [is_nullable_eq whole exact.size known, ← exact.entry_vanishes_iff known]
  simp

theorem Exact.entry_begins_iff (exact : Exact grammar table) (known : grammar.Knows symbol) :
    ∀ terminal ∈ grammar.terminals,
      (terminal.index ∈ (table.entry symbol).tokens ↔ grammar.Begins [symbol] terminal) := by
  intro terminal member
  rw [← exact.begins_iff [symbol] (.singleton known) terminal member, scan_singleton_tokens]

theorem Exact.entry_tokens_known (exact : Exact grammar table) (known : grammar.Knows symbol) :
    ∀ index ∈ (table.entry symbol).tokens,
      ∃ terminal ∈ grammar.terminals, terminal.index = index := by
  intro index found
  exact exact.tokens_known [symbol] (.singleton known) index (scan_singleton_tokens.2 found)

end Symbols

section Settling

/-- The indices of all symbols in right-hand sides. -/
def mentioned (grammar : Grammar) : List Int :=
  (grammar.productions.flatMap (·.rhs)).map (·.index)

/-- What keeps the passes bounded: nothing enters a table but what some production mentions. -/
structure Bounded (grammar : Grammar) (table : FirstTable) : Prop where
  size : table.entries.length = grammar.nonterminals.length
  tokens : ∀ entry ∈ table.entries, ∀ index ∈ entry.tokens, index ∈ mentioned grammar

def rank (table : FirstTable) : Nat := (table.entries.map First.rank).sum

theorem entry_within_mentioned (bounded : Bounded grammar table) {production : Production}
    (member : production ∈ grammar.productions) {symbol : Symbol} (occurs : symbol ∈ production.rhs)
    {index : Int} (found : index ∈ (table.entry symbol).tokens) : index ∈ mentioned grammar := by
  unfold entry at found
  split at found
  · obtain rfl := SortedSet.mem_singleton.1 found
    exact List.mem_map_of_mem (List.mem_flatMap.2 ⟨production, member, occurs⟩)
  · cases lookup : item? table.entries symbol.index with
    | none =>
        rw [lookup] at found
        exact absurd found (SortedSet.not_mem_empty index)
    | some entry =>
        rw [lookup] at found
        exact bounded.tokens entry (item_mem lookup) index found

theorem scan_within_mentioned (bounded : Bounded grammar table) {production : Production}
    (member : production ∈ grammar.productions) {form : List Symbol} (part : form ⊆ production.rhs)
    {index : Int} (found : index ∈ (table.scan form).tokens) : index ∈ mentioned grammar := by
  induction form with
  | nil => exact absurd found (SortedSet.not_mem_empty index)
  | cons symbol rest ih =>
      rcases mem_scan_cons.1 found with here | ⟨_, later⟩
      · exact entry_within_mentioned bounded member (part (by simp)) here
      · exact ih (fun other among => part (by simp [among])) later

theorem Bounded.after_learn (whole : grammar.WellFormed) (bounded : Bounded grammar table)
    {production : Production} (member : production ∈ grammar.productions) :
    Bounded grammar (table.learn production) := by
  refine ⟨by rw [size_after_learn, bounded.size], ?_⟩
  rw [learn_eq whole bounded.size member]
  intro entry present index found
  rcases mem_amend present with earlier | ⟨earlier, old, rfl⟩
  · exact bounded.tokens entry earlier index found
  · rcases SortedSet.mem_union.1 found with known | new
    · exact bounded.tokens earlier old index known
    · exact scan_within_mentioned bounded member (List.Subset.refl _) new

theorem pass_bound_eq (grammar : Grammar) :
    passBound grammar = grammar.nonterminals.length * ((mentioned grammar).length + 1) + 1 := by
  simp [passBound, mentioned]

theorem Bounded.rank_le (bounded : Bounded grammar table) :
    table.rank ≤ grammar.nonterminals.length * ((mentioned grammar).length + 1) := by
  have each : ∀ entry ∈ table.entries, entry.rank ≤ (mentioned grammar).length + 1 := by
    intro entry present
    have tokens := SortedSet.size_le_of_covered (bounded.tokens entry present)
    have nullable := Bool.toNat_le entry.nullable
    unfold First.rank
    omega
  have total := sum_of_ranks_le each
  rw [bounded.size] at total
  exact total

theorem learn_grows (whole : grammar.WellFormed) (bounded : Bounded grammar table)
    {production : Production} (member : production ∈ grammar.productions) :
    table.learn production = table ∨ table.rank < (table.learn production).rank := by
  rw [learn_eq whole bounded.size member]
  rcases amend_grows (First.either_grows (table.scan production.rhs)) table.entries
    production.lhs.index with same | more
  · left
    rw [same]
  · exact Or.inr more

theorem blank_bounded (grammar : Grammar) : Bounded grammar (blank grammar) := by
  refine ⟨by simp [blank], ?_⟩
  intro entry present index found
  obtain ⟨_, _, rfl⟩ := List.mem_map.1 present
  exact absurd found (SortedSet.not_mem_empty index)

theorem blank_sound (whole : grammar.WellFormed) : Sound grammar (blank grammar) := by
  have size : (blank grammar).entries.length = grammar.nonterminals.length := by simp [blank]
  have impossible : ∀ symbol ∈ grammar.nonterminals,
      (blank grammar).entry symbol = First.impossible := by
    intro symbol member
    obtain ⟨found, present, lookup⟩ := whole.item_found size member
    obtain ⟨_, _, rfl⟩ := List.mem_map.1 present
    exact entry_of_item (whole.nonterminal_kind member) lookup
  refine ⟨size, ?_, ?_⟩
  · intro symbol member index found
    rw [impossible symbol member] at found
    exact absurd found (SortedSet.not_mem_empty index)
  · intro symbol member nullable
    rw [impossible symbol member] at nullable
    cases nullable

theorem settled_sound (whole : grammar.WellFormed) : Sound grammar (settled grammar).1 := by
  apply settled_fold_keeps _ _ (blank_sound whole)
  intro production member table sound
  exact sound.after_learn whole member

theorem settled_closed (whole : grammar.WellFormed) : Closed grammar (settled grammar).1 := by
  intro production member
  have enough : grammar.nonterminals.length * ((mentioned grammar).length + 1) <
      passBound grammar + (blank grammar).rank := by
    rw [pass_bound_eq]
    omega
  have idle := settled_is_closed (fun _ among _ holds => Bounded.after_learn whole holds among)
    (fun _ among _ holds => learn_grows whole holds among) (fun _ holds => Bounded.rank_le holds)
    (blank_bounded grammar) enough production member
  have lookup := entry_after_learn whole (settled_sound whole).size member
    (whole.heads_known production member)
  rw [if_pos rfl] at lookup
  apply First.within_of_either_eq
  apply lookup.symm.trans
  exact congrArg (entry · production.lhs) idle

theorem settled_exact (whole : grammar.WellFormed) : Exact grammar (settled grammar).1 :=
  exact_of_closed whole (settled_sound whole) (settled_closed whole)

theorem of_grammar_eq (whole : grammar.WellFormed) :
    ofGrammar grammar = ⟨[.firstsConverged (settled grammar).2], .ok (settled grammar).1⟩ := by
  have size := (settled_sound whole).size
  have scanned : (grammar.productions.forM fun production => (do
      let _ ← (settled grammar).1.ofSequence production.rhs : Noted PUnit)) = ⟨[], .ok ⟨⟩⟩ := by
    apply noted_for_m_quiet
    intro production member
    rw [of_sequence_eq whole size (whole.body_known member)]
    rfl
  exact congrArg (· >>= fun _ =>
    Noted.note (.firstsConverged (settled grammar).2) >>= fun _ => pure (settled grammar).1) scanned

theorem of_grammar_outcome (whole : grammar.WellFormed) :
    (ofGrammar grammar).outcome = .ok (settled grammar).1 :=
  congrArg Noted.outcome (of_grammar_eq whole)

end Settling

/-- An answer that lists the terminals which can begin what a form derives, and says whether the
form derives nothing. -/
def Answers (grammar : Grammar) (form : List Symbol) (answer : Except Fault First) : Prop :=
  ∃ first, answer = .ok first ∧
    (first.nullable ↔ grammar.Derives form []) ∧
    (∀ terminal ∈ grammar.terminals, terminal.index ∈ first.tokens ↔
      ∃ rest, grammar.Derives form (terminal :: rest)) ∧
    ∀ index ∈ first.tokens, ∃ terminal ∈ grammar.terminals, terminal.index = index

theorem Exact.sequence_answer (whole : grammar.WellFormed) (exact : Exact grammar table)
    {form : List Symbol} (known : grammar.KnowsAll form) :
    Answers grammar form (table.ofSequence form) :=
  ⟨_, of_sequence_eq whole exact.size known, exact.vanishes_iff form known,
    exact.begins_iff form known, exact.tokens_known form known⟩

theorem Exact.symbol_answer (whole : grammar.WellFormed) (exact : Exact grammar table)
    {symbol : Symbol} (known : grammar.Knows symbol) :
    Answers grammar [symbol] (table.ofSymbol symbol) :=
  ⟨_, of_symbol_eq whole exact.size known, exact.entry_vanishes_iff known,
    exact.entry_begins_iff known, exact.entry_tokens_known known⟩

/-- Every well-formed grammar has a table, and looking up symbols and sequences in it tells exactly
what can come first. -/
theorem first_sets_are_exact (whole : grammar.WellFormed) :
    ∃ table, (ofGrammar grammar).outcome = .ok table ∧
      (∀ form, (∀ symbol ∈ form, grammar.Knows symbol) →
        Answers grammar form (table.ofSequence form)) ∧
      ∀ symbol, grammar.Knows symbol →
        Answers grammar [symbol] (table.ofSymbol symbol) ∧
          ∃ vanishes, table.isNullable symbol = .ok vanishes ∧
            (vanishes ↔ grammar.Derives [symbol] []) := by
  have exact := settled_exact whole
  refine ⟨(settled grammar).1, of_grammar_outcome whole, ?_, ?_⟩
  · intro form known
    exact exact.sequence_answer whole known
  · intro symbol known
    refine ⟨exact.symbol_answer whole known, _, is_nullable_eq whole exact.size known, ?_⟩
    exact exact.entry_vanishes_iff known

section Knot

/-- `A` and `B` call each other on the left, and `C` derives no finite sequence. -/
def knotSymbols : List Symbol :=
  [⟨.nonterminal, 0, "A"⟩, ⟨.nonterminal, 1, "B"⟩, ⟨.nonterminal, 2, "C"⟩, ⟨.nonterminal, 3, "A'"⟩]

def knot : Grammar where
  variant := .plain
  tokens := [⟨.terminal, 0, "x"⟩]
  eof := ⟨.terminal, 1, "$"⟩
  nonterminals := knotSymbols
  leading := [
    ⟨0, ⟨.nonterminal, 0, "A"⟩, [⟨.nonterminal, 1, "B"⟩, ⟨.terminal, 0, "x"⟩], none⟩,
    ⟨1, ⟨.nonterminal, 1, "B"⟩, [⟨.nonterminal, 0, "A"⟩], none⟩,
    ⟨2, ⟨.nonterminal, 1, "B"⟩, [], none⟩,
    ⟨3, ⟨.nonterminal, 2, "C"⟩, [⟨.terminal, 0, "x"⟩, ⟨.nonterminal, 2, "C"⟩], none⟩]
  startProduction :=
    ⟨4, ⟨.nonterminal, 3, "A'"⟩, [⟨.nonterminal, 0, "A"⟩, ⟨.terminal, 1, "$"⟩], none⟩
  start := ⟨.nonterminal, 0, "A"⟩
  implicitRule := none
  precedences := ∅
  errorTexts := ∅

theorem first_sets_of_knot :
    knot.WellFormed ∧ (∀ symbol ∈ knotSymbols, knot.Knows symbol) ∧
      ∃ table, (ofGrammar knot).outcome = .ok table ∧
        Answers knot knotSymbols (table.ofSequence knotSymbols) ∧
        ∀ symbol ∈ knotSymbols, Answers knot [symbol] (table.ofSymbol symbol) := by
  have whole : knot.WellFormed := by decide
  have known : ∀ symbol ∈ knotSymbols, knot.Knows symbol := by decide
  obtain ⟨table, found, sequences, symbols⟩ := first_sets_are_exact whole
  refine ⟨whole, known, table, found, sequences knotSymbols known, ?_⟩
  intro symbol member
  exact (symbols symbol (known symbol member)).1

end Knot

end FirstTable

end GrammarKit
