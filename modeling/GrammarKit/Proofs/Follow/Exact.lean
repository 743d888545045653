import GrammarKit.Proofs.Follow.Flows

/-!
# FOLLOW sets are exact

What can stand right behind a nonterminal is asked of the forms that any nonterminal derives, also
of those that the start symbol never leads to. The completeness proof follows one derivation: each
occurrence of a nonterminal in a form has in its set what can come first behind it, and, when all of
that can vanish, what can follow the nonterminal from which the form is derived.
-/

namespace GrammarKit

set_option autoImplicit false

namespace Grammar

/-- Some nonterminal derives a form in which the terminal stands right behind the symbol. -/
def Adjacent (grammar : Grammar) (symbol terminal : Symbol) : Prop :=
  ∃ origin ∈ grammar.nonterminals, ∃ before after,
    grammar.Derives [origin] (before ++ symbol :: terminal :: after)

/-- The start symbol derives a form that ends in the symbol. -/
def EndsInput (grammar : Grammar) (symbol : Symbol) : Prop :=
  ∃ before, grammar.Derives [grammar.start] (before ++ [symbol])

def Follows (grammar : Grammar) (symbol terminal : Symbol) : Prop :=
  grammar.Adjacent symbol terminal ∨ terminal = grammar.eof ∧ grammar.EndsInput symbol

variable {grammar : Grammar}

theorem eof_is_terminal (grammar : Grammar) : grammar.eof ∈ grammar.terminals := by
  simp [terminals]

theorem Adjacent.of_begins (whole : grammar.WellFormed) {production : Production}
    (member : production ∈ grammar.productions) {before behind : List Symbol}
    {symbol terminal : Symbol} (shape : production.rhs = before ++ symbol :: behind)
    (begins : grammar.Begins behind terminal) : grammar.Adjacent symbol terminal := by
  obtain ⟨rest, derivation⟩ := begins
  refine ⟨production.lhs, whole.heads_known production member, before, rest, ?_⟩
  have applied := Derives.of_production member
  rw [shape] at applied
  exact applied.trans ((derivation.behind [symbol]).behind before)

/-- What follows the head of a production follows a nonterminal at its end as well. -/
theorem Follows.of_head {production : Production} (member : production ∈ grammar.productions)
    {before behind : List Symbol} {symbol terminal : Symbol}
    (shape : production.rhs = before ++ symbol :: behind) (vanishes : grammar.Derives behind [])
    (follows : grammar.Follows production.lhs terminal) : grammar.Follows symbol terminal := by
  have applied := Derives.of_production member
  rw [shape] at applied
  have shortened : grammar.Derives [production.lhs] (before ++ [symbol]) :=
    applied.trans ((vanishes.behind [symbol]).behind before)
  rcases follows with ⟨origin, known, left, right, derivation⟩ | ⟨final, left, derivation⟩
  · left
    refine ⟨origin, known, left ++ before, right, ?_⟩
    have moved := derivation.replace shortened
    simpa using moved
  · right
    refine ⟨final, left ++ before, ?_⟩
    have moved := derivation.replace shortened
    simpa using moved

end Grammar

namespace FollowTable

variable {grammar : Grammar} {firsts : FirstTable} {table : FollowTable}

section Steps

variable (whole : grammar.WellFormed) (size : table.entries.length = grammar.nonterminals.length)

include whole size

theorem tokens_of_nonterminal {symbol : Symbol} (member : symbol ∈ grammar.nonterminals) :
    item? table.entries symbol.index = some (table.tokensOf symbol.index) := by
  obtain ⟨found, _, lookup⟩ := whole.item_found size member
  rw [tokensOf, lookup]
  rfl

theorem of_symbol_eq {symbol : Symbol} (member : symbol ∈ grammar.nonterminals) :
    table.ofSymbol symbol = .ok (table.tokensOf symbol.index) := by
  unfold ofSymbol
  rw [if_neg (by simp [whole.nonterminal_kind member]), tokens_of_nonterminal whole size member]
  rfl

theorem mem_after_absorb {production : Production} (member : production ∈ grammar.productions)
    {occurrence : Symbol × List Symbol} (occurs : occurrence ∈ occurrences production.rhs)
    {symbol : Symbol} (among : symbol ∈ grammar.nonterminals) (firsts : FirstTable)
    (index : Int) :
    index ∈ (table.absorb (Flow.ofOccurrence firsts production occurrence)).tokensOf symbol.index ↔
      index ∈ table.tokensOf symbol.index ∨ symbol = occurrence.1 ∧
        (index ∈ (firsts.scan occurrence.2).tokens ∨
          (firsts.scan occurrence.2).nullable ∧ index ∈ table.tokensOf production.lhs.index) := by
  have target := Flow.target_known whole member occurs
  have lookup := fun change => whole.item_after_amend size target among change
  unfold absorb tokensOf Flow.ofOccurrence
  simp only [lookup, tokens_of_nonterminal whole size among]
  by_cases same : symbol = occurrence.1
  · by_cases nullable : (firsts.scan occurrence.2).nullable
    · simp [same, nullable, tokensOf]
    · simp [same, nullable]
  · simp [same]

end Steps

theorem size_after_absorb (table : FollowTable) (flow : Flow) :
    (table.absorb flow).entries.length = table.entries.length := by
  simp [absorb]

structure Sound (grammar : Grammar) (table : FollowTable) : Prop where
  size : table.entries.length = grammar.nonterminals.length
  tokens : ∀ symbol ∈ grammar.nonterminals, ∀ index ∈ table.tokensOf symbol.index,
    ∃ terminal ∈ grammar.terminals, terminal.index = index ∧ grammar.Follows symbol terminal

theorem Sound.after_absorb (whole : grammar.WellFormed) (exact : firsts.Exact grammar)
    (sound : Sound grammar table) {production : Production}
    (member : production ∈ grammar.productions) {occurrence : Symbol × List Symbol}
    (occurs : occurrence ∈ occurrences production.rhs) :
    Sound grammar (table.absorb (Flow.ofOccurrence firsts production occurrence)) := by
  refine ⟨by rw [size_after_absorb, sound.size], ?_⟩
  intro symbol among index found
  obtain ⟨_, before, shape⟩ := occurrence_splits occurs
  have known := Flow.rest_known whole member occurs
  rcases (mem_after_absorb whole sound.size member occurs among firsts index).1 found with
    earlier | ⟨rfl, begins | ⟨vanishes, inherited⟩⟩
  · exact sound.tokens symbol among index earlier
  · obtain ⟨terminal, present, rfl⟩ := exact.tokens_known occurrence.2 known index begins
    have first := (exact.begins_iff occurrence.2 known terminal present).1 begins
    exact ⟨terminal, present, rfl, Or.inl (.of_begins whole member shape first)⟩
  · obtain ⟨terminal, present, same, follows⟩ :=
      sound.tokens production.lhs (whole.heads_known production member) index inherited
    have gone := (exact.vanishes_iff occurrence.2 known).1 vanishes
    exact ⟨terminal, present, same, .of_head member shape gone follows⟩

/-- Each nonterminal of a form has in its set what can come first behind it, and what is in the set
of the origin when nothing need come behind it. -/
def Carries (firsts : FirstTable) (table : FollowTable) (origin : Symbol) (form : List Symbol) :
    Prop :=
  ∀ occurrence ∈ occurrences form,
    (∀ index ∈ (firsts.scan occurrence.2).tokens, index ∈ table.tokensOf occurrence.1.index) ∧
      ((firsts.scan occurrence.2).nullable →
        ∀ index ∈ table.tokensOf origin.index, index ∈ table.tokensOf occurrence.1.index)

def Closed (grammar : Grammar) (firsts : FirstTable) (table : FollowTable) : Prop :=
  ∀ production ∈ grammar.productions, table.Carries firsts production.lhs production.rhs

theorem carries_origin {origin : Symbol} (nonterminal : origin.isTerminal = false) :
    table.Carries firsts origin [origin] := by
  intro occurrence member
  rw [occurrences_of_nonterminal nonterminal] at member
  obtain rfl := List.mem_singleton.1 member
  exact ⟨fun index found => absurd found (SortedSet.not_mem_empty index), fun _ _ found => found⟩

theorem Closed.carries_after_step (whole : grammar.WellFormed) (exact : firsts.Exact grammar)
    (closed : Closed grammar firsts table) {origin : Symbol} {form next : List Symbol}
    (known : grammar.KnowsAll form) (step : grammar.Step form next)
    (carried : table.Carries firsts origin form) : table.Carries firsts origin next := by
  cases step with
  | @expand production member before after =>
      have nonterminal := whole.nonterminal_kind (whole.heads_known production member)
      have head := carried (production.lhs, after) (occurrence_of_split nonterminal before after)
      intro occurrence occurs
      rcases mem_occurrences_append.1 occurs with ⟨front, inside, behind⟩ | later
      · rcases mem_occurrences_append.1 inside with ⟨rest, earlier, shape⟩ | own
        -- In front of the applied production: less can come first behind it than before.
        · simp only at shape
          subst shape
          have place : (occurrence.1, rest ++ production.lhs :: after) ∈
              occurrences (before ++ production.lhs :: after) :=
            mem_occurrences_append.2 (Or.inl ⟨rest, earlier, rfl⟩)
          have old := carried _ place
          obtain ⟨_, left, split⟩ := occurrence_splits earlier
          have restKnown : grammar.KnowsAll (rest ++ production.lhs :: after) := by
            rw [split, List.append_assoc] at known
            exact known.right.tail
          have smaller := exact.scan_after_step whole restKnown (.expand member rest after)
          rw [behind]
          exact ⟨fun index found => old.1 index (smaller.tokens index found),
            fun vanishes => old.2 (smaller.nullable vanishes)⟩
        -- Inside the applied production: its own flow, or what the head passes on.
        · have flow := closed production member (occurrence.1, front) own
          rw [behind]
          constructor
          · intro index found
            rcases FirstTable.mem_scan_append.1 found with here | ⟨vanishes, there⟩
            · exact flow.1 index here
            · exact flow.2 vanishes index (head.1 index there)
          · intro vanishes index found
            rw [FirstTable.nullable_scan_append, Bool.and_eq_true] at vanishes
            exact flow.2 vanishes.1 index (head.2 vanishes.2 index found)
      -- Behind the applied production: nothing has changed.
      · apply carried
        apply mem_occurrences_append.2
        right
        rw [occurrences_of_nonterminal nonterminal]
        exact List.mem_cons_of_mem _ later

theorem Closed.carries_derived (whole : grammar.WellFormed) (exact : firsts.Exact grammar)
    (closed : Closed grammar firsts table) {origin : Symbol} {form : List Symbol}
    (member : origin ∈ grammar.nonterminals) (derivation : grammar.Derives [origin] form) :
    table.Carries firsts origin form := by
  induction derivation with
  | refl => exact carries_origin (whole.nonterminal_kind member)
  | tail earlier last ih =>
      have known := earlier.known whole (.singleton (Or.inr member))
      exact closed.carries_after_step whole exact known last ih

/-- The sets hold the terminals that can follow, and nothing else. -/
structure Exact (grammar : Grammar) (table : FollowTable) : Prop where
  size : table.entries.length = grammar.nonterminals.length
  follows_iff : ∀ symbol ∈ grammar.nonterminals, ∀ terminal ∈ grammar.terminals,
    (terminal.index ∈ table.tokensOf symbol.index ↔ grammar.Follows symbol terminal)
  tokens_known : ∀ symbol ∈ grammar.nonterminals, ∀ index ∈ table.tokensOf symbol.index,
    ∃ terminal ∈ grammar.terminals, terminal.index = index

theorem exact_of_closed (whole : grammar.WellFormed) (exact : firsts.Exact grammar)
    (sound : Sound grammar table) (closed : Closed grammar firsts table)
    (ending : grammar.eof.index ∈ table.tokensOf grammar.start.index) : Exact grammar table := by
  refine ⟨sound.size, ?_, ?_⟩
  · intro symbol member terminal present
    have nonterminal := whole.nonterminal_kind member
    constructor
    · intro found
      obtain ⟨other, otherPresent, same, follows⟩ := sound.tokens symbol member _ found
      rwa [whole.terminal_of_index otherPresent present same] at follows
    · intro follows
      rcases follows with ⟨origin, known, before, after, derivation⟩ | ⟨rfl, before, derivation⟩
      · have carried := closed.carries_derived whole exact known derivation
        have flow := carried (symbol, terminal :: after) (occurrence_of_split nonterminal before _)
        apply flow.1
        apply FirstTable.mem_scan_cons.2
        left
        rw [FirstTable.entry_of_terminal (whole.terminal_kind present)]
        exact SortedSet.mem_singleton.2 rfl
      · have carried := closed.carries_derived whole exact whole.start_known derivation
        have flow := carried (symbol, []) (occurrence_of_split nonterminal before [])
        exact flow.2 rfl _ ending
  · intro symbol member index found
    obtain ⟨terminal, present, same, _⟩ := sound.tokens symbol member index found
    exact ⟨terminal, present, same⟩

section Settling

/-- What can ever enter a set: the end of the input and the tokens of the flows. -/
def carried (grammar : Grammar) (flows : List Flow) : List Int :=
  grammar.eof.index :: flows.flatMap (·.tokens.toList)

structure Bounded (grammar : Grammar) (flows : List Flow) (table : FollowTable) : Prop where
  size : table.entries.length = grammar.nonterminals.length
  tokens : ∀ entry ∈ table.entries, ∀ index ∈ entry, index ∈ carried grammar flows
  ending : grammar.eof.index ∈ table.tokensOf grammar.start.index

def rank (table : FollowTable) : Nat := (table.entries.map SortedSet.size).sum

variable {flows : List Flow}

theorem pass_bound_eq (grammar : Grammar) (flows : List Flow) :
    passBound grammar flows =
      grammar.nonterminals.length * (carried grammar flows).length + 1 := rfl

theorem Bounded.rank_le (bounded : Bounded grammar flows table) :
    table.rank ≤ grammar.nonterminals.length * (carried grammar flows).length := by
  have total : (table.entries.map SortedSet.size).sum ≤ _ := sum_of_ranks_le
    (fun entry present => SortedSet.size_le_of_covered (bounded.tokens entry present))
  rw [bounded.size] at total
  exact total

theorem tokens_of_carried (bounded : Bounded grammar flows table) {place index : Int}
    (found : index ∈ table.tokensOf place) : index ∈ carried grammar flows := by
  unfold tokensOf at found
  cases lookup : item? table.entries place with
  | none =>
      rw [lookup] at found
      exact absurd found (SortedSet.not_mem_empty index)
  | some entry =>
      rw [lookup] at found
      exact bounded.tokens entry (item_mem lookup) index found

theorem tokens_of_absorb {flow : Flow} {place index : Int} (found : index ∈ table.tokensOf place) :
    index ∈ (table.absorb flow).tokensOf place := by
  unfold tokensOf at found ⊢
  unfold absorb
  by_cases same : slot? table.entries.length place = slot? table.entries.length flow.target
  · rw [item_amend_same same]
    unfold item? at found ⊢
    rw [← same]
    cases lookup : (slot? table.entries.length place).bind (table.entries[·]?) with
    | none =>
        rw [lookup] at found
        exact absurd found (SortedSet.not_mem_empty index)
    | some entry =>
        rw [lookup] at found
        exact SortedSet.mem_union.2 (Or.inl found)
  · rw [item_amend_other same]
    exact found

theorem Bounded.after_absorb (bounded : Bounded grammar flows table) {flow : Flow}
    (member : flow ∈ flows) : Bounded grammar flows (table.absorb flow) := by
  refine ⟨by rw [size_after_absorb, bounded.size], ?_, tokens_of_absorb bounded.ending⟩
  intro entry present index found
  rcases mem_amend present with earlier | ⟨earlier, old, rfl⟩
  · exact bounded.tokens entry earlier index found
  · rcases SortedSet.mem_union.1 found with known | new
    · exact bounded.tokens earlier old index known
    · rcases SortedSet.mem_union.1 new with token | inherited
      · exact List.mem_cons_of_mem _ (List.mem_flatMap.2 ⟨flow, member, token⟩)
      · cases origin : flow.source with
        | none =>
            rw [origin] at inherited
            exact absurd inherited (SortedSet.not_mem_empty index)
        | some source =>
            rw [origin] at inherited
            exact tokens_of_carried bounded inherited

theorem absorb_grows (table : FollowTable) (flow : Flow) :
    table.absorb flow = table ∨ table.rank < (table.absorb flow).rank := by
  have grows : ∀ known : IndexSet,
      known ∪ (flow.tokens ∪ (flow.source.map table.tokensOf).getD ∅) = known ∨
        known.size < (known ∪ (flow.tokens ∪ (flow.source.map table.tokensOf).getD ∅)).size :=
    fun known => SortedSet.eq_or_size_lt fun index found => SortedSet.mem_union.2 (Or.inl found)
  rcases amend_grows grows table.entries flow.target with same | more
  · exact Or.inl (congrArg FollowTable.mk same)
  · exact Or.inr more

theorem blank_tokens (whole : grammar.WellFormed) {symbol : Symbol}
    (member : symbol ∈ grammar.nonterminals) :
    (blank grammar).tokensOf symbol.index =
      if symbol = grammar.start then SortedSet.singleton grammar.eof.index else ∅ := by
  have nothing : ∀ table : List IndexSet, table = grammar.nonterminals.map (fun _ => ∅) →
      item? (amend table grammar.start.index fun _ => SortedSet.singleton grammar.eof.index)
        symbol.index =
        some (if symbol = grammar.start then SortedSet.singleton grammar.eof.index else ∅) := by
    intro table made
    have size : table.length = grammar.nonterminals.length := by simp [made]
    obtain ⟨found, present, lookup⟩ := whole.item_found size member
    rw [made] at present
    obtain ⟨_, _, rfl⟩ := List.mem_map.1 present
    rw [whole.item_after_amend size whole.start_known member, lookup]
    split <;> rfl
  unfold blank tokensOf
  rw [nothing _ rfl]
  rfl

theorem blank_bounded (whole : grammar.WellFormed) (flows : List Flow) :
    Bounded grammar flows (blank grammar) := by
  refine ⟨by simp [blank], ?_, ?_⟩
  · intro entry present index found
    rcases mem_amend present with earlier | ⟨_, _, rfl⟩
    · obtain ⟨_, _, rfl⟩ := List.mem_map.1 earlier
      exact absurd found (SortedSet.not_mem_empty index)
    · obtain rfl := SortedSet.mem_singleton.1 found
      exact List.mem_cons_self
  · rw [blank_tokens whole whole.start_known, if_pos rfl]
    exact SortedSet.mem_singleton.2 rfl

theorem blank_sound (whole : grammar.WellFormed) : Sound grammar (blank grammar) := by
  refine ⟨by simp [blank], ?_⟩
  intro symbol member index found
  rw [blank_tokens whole member] at found
  split at found
  · next start =>
      obtain rfl := SortedSet.mem_singleton.1 found
      have ends : grammar.EndsInput symbol := by
        rw [start]
        exact ⟨[], .refl⟩
      exact ⟨grammar.eof, grammar.eof_is_terminal, rfl, Or.inr ⟨rfl, ends⟩⟩
  · exact absurd found (SortedSet.not_mem_empty index)

theorem settled_bounded (whole : grammar.WellFormed) (flows : List Flow) :
    Bounded grammar flows (settled grammar flows).1 := by
  apply settled_fold_keeps _ _ (blank_bounded whole flows)
  intro flow member table bounded
  exact bounded.after_absorb member

theorem settled_sound (whole : grammar.WellFormed) (exact : firsts.Exact grammar) :
    Sound grammar (settled grammar (Flow.all grammar firsts)).1 := by
  apply settled_fold_keeps _ _ (blank_sound whole)
  intro flow member table sound
  obtain ⟨production, among, occurrence, occurs, rfl⟩ := Flow.mem_all.1 member
  exact sound.after_absorb whole exact among occurs

theorem settled_closed (whole : grammar.WellFormed) (firsts : FirstTable) :
    Closed grammar firsts (settled grammar (Flow.all grammar firsts)).1 := by
  have enough : grammar.nonterminals.length * (carried grammar (Flow.all grammar firsts)).length <
      passBound grammar (Flow.all grammar firsts) + (blank grammar).rank := by
    rw [pass_bound_eq]
    omega
  have idle := settled_is_closed (fun _ among _ holds => Bounded.after_absorb holds among)
    (fun flow _ table _ => absorb_grows table flow) (fun _ holds => Bounded.rank_le holds)
    (blank_bounded whole (Flow.all grammar firsts)) enough
  have size := (settled_bounded whole (Flow.all grammar firsts)).size
  intro production member occurrence occurs
  have target := Flow.target_known whole member occurs
  have same := idle _ (Flow.mem_all.2 ⟨production, member, occurrence, occurs, rfl⟩)
  have absorbed := mem_after_absorb whole size member occurs target firsts
  constructor
  · intro index found
    have present := (absorbed index).2 (Or.inr ⟨rfl, Or.inl found⟩)
    exact congrArg (tokensOf · occurrence.1.index) same ▸ present
  · intro vanishes index found
    have present := (absorbed index).2 (Or.inr ⟨rfl, Or.inr ⟨vanishes, found⟩⟩)
    exact congrArg (tokensOf · occurrence.1.index) same ▸ present

theorem settled_exact (whole : grammar.WellFormed) (exact : firsts.Exact grammar) :
    Exact grammar (settled grammar (Flow.all grammar firsts)).1 :=
  exact_of_closed whole exact (settled_sound whole exact) (settled_closed whole firsts)
    (settled_bounded whole _).ending

theorem of_firsts_eq (whole : grammar.WellFormed) (exact : firsts.Exact grammar) :
    ofFirsts grammar firsts =
      ⟨[.followsConverged (settled grammar (Flow.all grammar firsts)).2],
        .ok (settled grammar (Flow.all grammar firsts)).1⟩ := by
  obtain ⟨_, _, start⟩ := whole.rule_slot whole.start_known
  have routed : (Flow.all grammar firsts).all (·.isRouted grammar.nonterminals.length) := by
    rw [List.all_eq_true]
    intro flow member
    obtain ⟨production, among, occurrence, occurs, rfl⟩ := Flow.mem_all.1 member
    exact Flow.routed whole among occurs
  unfold ofFirsts
  rw [if_neg (by simp [start]), Flow.of_grammar_eq whole exact.size]
  change (if (Flow.all grammar firsts).all (·.isRouted grammar.nonterminals.length) then _
    else _ : Noted FollowTable) = _
  rw [if_pos routed]
  rfl

theorem of_firsts_outcome (whole : grammar.WellFormed) (exact : firsts.Exact grammar) :
    (ofFirsts grammar firsts).outcome = .ok (settled grammar (Flow.all grammar firsts)).1 :=
  congrArg Noted.outcome (of_firsts_eq whole exact)

theorem of_grammar_outcome (whole : grammar.WellFormed) :
    ∃ table, (ofGrammar grammar).outcome = .ok table ∧ Exact grammar table := by
  have exact := FirstTable.settled_exact whole
  refine ⟨_, ?_, settled_exact whole exact⟩
  exact (Noted.outcome_bind_ok (FirstTable.of_grammar_outcome whole)).trans
    (of_firsts_outcome whole exact)

end Settling

end FollowTable

end GrammarKit
