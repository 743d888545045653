import GrammarKit.Proofs.Build.ReadBack
import GrammarKit.Proofs.Build.Represented
import GrammarKit.Proofs.Follow.Textbook
import GrammarKit.Proofs.Implicit.Language

/-!
# The end of the input stands last

A form is inner when neither the end of the input nor the augmented start stands in it. In a built
grammar all productions but the last one lead from inner forms to inner forms, so what the augmented
start derives is an inner form with the end of the input behind it, and all other nonterminals
derive inner forms only. Whether a rule is reachable or productive has no part in this, nor whether
it bears the name of the end of the input.
-/

namespace GrammarKit

set_option autoImplicit false

namespace Grammar

/-- Nothing in the form was put there by the last production. -/
structure Inner (grammar : Grammar) (form : List Symbol) : Prop where
  without_eof : grammar.eof ∉ form
  without_augmented : grammar.augmentedStart ∉ form

/-- The last production encloses all that the others derive. -/
structure Encloses (grammar : Grammar) : Prop where
  inner_bodies : ∀ production ∈ grammar.productions,
    production.lhs ≠ grammar.augmentedStart → grammar.Inner production.rhs
  one_for_augmented : ∀ production ∈ grammar.productions,
    production.lhs = grammar.augmentedStart → production = grammar.startProduction
  start_body : grammar.startProduction.rhs =
    grammar.implicitRule.toList ++ [grammar.start] ++ [grammar.eof]
  inner_front : grammar.Inner (grammar.implicitRule.toList ++ [grammar.start])
  implicit_vanishes : grammar.Derives grammar.implicitRule.toList []

variable {grammar : Grammar}

theorem inner_append {left right : List Symbol} :
    grammar.Inner (left ++ right) ↔ grammar.Inner left ∧ grammar.Inner right := by
  constructor
  · intro both
    have eof := both.without_eof
    have augmented := both.without_augmented
    rw [List.mem_append, not_or] at eof augmented
    exact ⟨⟨eof.1, augmented.1⟩, ⟨eof.2, augmented.2⟩⟩
  · intro parts
    rcases parts with ⟨first, second⟩
    constructor
    · rw [List.mem_append, not_or]
      exact ⟨first.without_eof, second.without_eof⟩
    · rw [List.mem_append, not_or]
      exact ⟨first.without_augmented, second.without_augmented⟩

theorem WellFormed.eof_ne_nonterminal (whole : grammar.WellFormed) {symbol : Symbol}
    (member : symbol ∈ grammar.nonterminals) : grammar.eof ≠ symbol := by
  intro same
  have kind := whole.terminal_kind grammar.eof_is_terminal
  rw [same, whole.nonterminal_kind member] at kind
  cases kind

theorem inner_of_nonterminal (whole : grammar.WellFormed) {symbol : Symbol}
    (member : symbol ∈ grammar.nonterminals) (other : symbol ≠ grammar.augmentedStart) :
    grammar.Inner [symbol] := by
  constructor
  · intro among
    exact whole.eof_ne_nonterminal member (List.mem_singleton.1 among)
  · intro among
    exact other (List.mem_singleton.1 among).symm

namespace Encloses

variable (encloses : grammar.Encloses)

include encloses

theorem inner_after_step {form next : List Symbol} (step : grammar.Step form next)
    (inner : grammar.Inner form) : grammar.Inner next := by
  cases step with
  | @expand production member before after =>
      obtain ⟨front, back⟩ := inner_append.1 inner
      rw [List.singleton_append.symm, inner_append] at back
      obtain ⟨head, rest⟩ := back
      have other : production.lhs ≠ grammar.augmentedStart :=
        fun same => head.without_augmented (List.mem_singleton.2 same.symm)
      have body := encloses.inner_bodies production member other
      exact inner_append.2 ⟨inner_append.2 ⟨front, body⟩, rest⟩

theorem inner_derived {form final : List Symbol} (derivation : grammar.Derives form final)
    (inner : grammar.Inner form) : grammar.Inner final := by
  induction derivation with
  | refl => exact inner
  | tail _ last ih => exact encloses.inner_after_step last ih

theorem inner_from_other (whole : grammar.WellFormed) {symbol : Symbol}
    (member : symbol ∈ grammar.nonterminals) (other : symbol ≠ grammar.augmentedStart)
    {form : List Symbol} (derivation : grammar.Derives [symbol] form) : grammar.Inner form :=
  encloses.inner_derived derivation (inner_of_nonterminal whole member other)

/-- From the first step on there is one end of the input, behind an inner form. -/
theorem augmented_forms (whole : grammar.WellFormed) {form : List Symbol}
    (derivation : grammar.Derives [grammar.augmentedStart] form) :
    form = [grammar.augmentedStart] ∨
      ∃ front, form = front ++ [grammar.eof] ∧ grammar.Inner front ∧
        grammar.Derives (grammar.implicitRule.toList ++ [grammar.start]) front := by
  rcases derivation.of_symbol with same | ⟨production, member, head, later⟩
  · exact Or.inl same
  · right
    rw [encloses.one_for_augmented production member head, encloses.start_body] at later
    obtain ⟨front, last, rfl, inside, ending⟩ := later.of_append
    obtain rfl := ending.of_terminal whole (whole.terminal_kind grammar.eof_is_terminal)
    exact ⟨front, rfl, encloses.inner_derived inside encloses.inner_front, inside⟩

/-- Two symbols side by side stand behind the first step: the left one is inner, and nothing comes
behind the end of the input. -/
theorem augmented_neighbours (whole : grammar.WellFormed) {before after : List Symbol}
    {symbol next : Symbol}
    (derivation : grammar.Derives [grammar.augmentedStart] (before ++ symbol :: next :: after)) :
    grammar.Inner (before ++ [symbol]) ∧ (next = grammar.eof → after = []) := by
  rcases encloses.augmented_forms whole derivation with alone | ⟨front, shape, inner, _⟩
  · have lengths := congrArg List.length alone
    simp only [List.length_append, List.length_cons, List.length_nil] at lengths
    omega
  · rcases List.eq_nil_or_concat after with rfl | ⟨others, last, rfl⟩
    · have ending : before ++ [symbol] ++ [next] = front ++ [grammar.eof] := by simpa using shape
      obtain rfl := List.append_inj_left' ending rfl
      exact ⟨inner, fun _ => rfl⟩
    · have ending : before ++ [symbol] ++ next :: others ++ [last] = front ++ [grammar.eof] := by
        simpa using shape
      obtain rfl := List.append_inj_left' ending rfl
      obtain ⟨left, right⟩ := inner_append.1 inner
      refine ⟨left, ?_⟩
      intro eof
      exact absurd (eof ▸ List.mem_cons_self) right.without_eof

theorem eof_begins_iff (whole : grammar.WellFormed) {symbol : Symbol}
    (member : symbol ∈ grammar.nonterminals) :
    grammar.Begins [symbol] grammar.eof ↔
      symbol = grammar.augmentedStart ∧ grammar.Derives [grammar.start] [] := by
  constructor
  · intro begins
    rcases begins with ⟨rest, derivation⟩
    by_cases same : symbol = grammar.augmentedStart
    · subst same
      rcases encloses.augmented_forms whole derivation with alone | ⟨front, shape, inner, inside⟩
      · exact absurd (List.cons.inj alone).1 (whole.eof_ne_nonterminal member)
      · -- The end of the input comes first, so nothing is left of what stood before it.
        cases front with
        | nil =>
            obtain ⟨first, second, empty, _, start⟩ := inside.of_append
            rw [(List.append_eq_nil_iff.1 empty.symm).2] at start
            exact ⟨rfl, start⟩
        | cons first others =>
            have eof : grammar.eof = first := (List.cons.inj shape).1
            exact absurd (eof ▸ List.mem_cons_self) inner.without_eof
    · have inner := encloses.inner_from_other whole member same derivation
      exact absurd List.mem_cons_self inner.without_eof
  · intro vanishes
    rcases vanishes with ⟨rfl, start⟩
    have applied : grammar.Derives [grammar.augmentedStart] grammar.startProduction.rhs :=
      Derives.of_production grammar.start_production_mem
    rw [encloses.start_body] at applied
    have gone := (encloses.implicit_vanishes.append start).ahead [grammar.eof]
    exact ⟨[], applied.trans gone⟩

theorem eof_follows_iff (whole : grammar.WellFormed) {symbol : Symbol} :
    grammar.Follows symbol grammar.eof ↔
      ∃ before, grammar.Derives [grammar.augmentedStart] (before ++ [symbol, grammar.eof]) := by
  constructor
  · intro follows
    have from_start : grammar.FollowsFromStart symbol grammar.eof := by
      rcases follows with ⟨origin, member, before, after, derivation⟩ | ⟨_, ending⟩
      · by_cases same : origin = grammar.augmentedStart
        · exact ⟨before, after, same ▸ derivation⟩
        · have inner := encloses.inner_from_other whole member same derivation
          exact absurd (by simp) inner.without_eof
      · exact ending.from_start (by simpa using encloses.start_body)
    obtain ⟨before, after, derivation⟩ := from_start
    obtain rfl := (encloses.augmented_neighbours whole derivation).2 rfl
    exact ⟨before, derivation⟩
  · intro derived
    rcases derived with ⟨before, derivation⟩
    exact Or.inl ⟨_, whole.augmented_start_known, before, [], derivation⟩

theorem nothing_follows_augmented (whole : grammar.WellFormed) (terminal : Symbol) :
    ¬ grammar.Follows grammar.augmentedStart terminal := by
  intro follows
  rcases follows with ⟨origin, member, before, after, derivation⟩ | ⟨_, before, derivation⟩
  · by_cases same : origin = grammar.augmentedStart
    · have inner := (encloses.augmented_neighbours whole (same ▸ derivation)).1
      exact inner.without_augmented (by simp)
    · have inner := encloses.inner_from_other whole member same derivation
      exact inner.without_augmented (by simp)
  · have start := (inner_append.1 encloses.inner_front).2
    have inner := encloses.inner_derived derivation start
    exact inner.without_augmented (by simp)

end Encloses

/-- The end of the input stands last in what the augmented start derives and nowhere else, and the
tables of the grammar tell so. -/
structure IsolatesEnd (grammar : Grammar) (firsts : FirstTable) (follows : FollowTable) :
    Prop where
  whole_texts : ∀ text, grammar.Generates grammar.augmentedStart text →
    ∃ front, text = front ++ [grammar.eof] ∧ grammar.eof ∉ front
  inner_texts : ∀ symbol ∈ grammar.nonterminals, symbol ≠ grammar.augmentedStart →
    ∀ text, grammar.Generates symbol text → grammar.eof ∉ text
  begins_iff : ∀ symbol ∈ grammar.nonterminals, ∃ first, firsts.ofSymbol symbol = .ok first ∧
    (grammar.eof.index ∈ first.tokens ↔
      symbol = grammar.augmentedStart ∧ firsts.isNullable grammar.start = .ok true)
  nullable_iff : firsts.isNullable grammar.start = .ok true ↔ grammar.Derives [grammar.start] []
  behind_augmented : follows.ofSymbol grammar.augmentedStart = .ok ∅
  behind_start : ∃ indices, follows.ofSymbol grammar.start = .ok indices ∧
    grammar.eof.index ∈ indices
  follows_iff : ∀ symbol ∈ grammar.nonterminals,
    ∃ indices, follows.ofSymbol symbol = .ok indices ∧
      (grammar.eof.index ∈ indices ↔
        ∃ before, grammar.Derives [grammar.augmentedStart] (before ++ [symbol, grammar.eof]))

namespace Encloses

variable {firsts : FirstTable} {follows : FollowTable}

theorem isolates_end (encloses : grammar.Encloses) (whole : grammar.WellFormed)
    (first : firsts.Exact grammar) (follow : follows.Exact grammar) :
    grammar.IsolatesEnd firsts follows where
  whole_texts := by
    intro text generated
    rcases encloses.augmented_forms whole generated.2 with rfl | ⟨front, shape, inner, _⟩
    · have kind := generated.1 _ (List.mem_singleton_self _)
      rw [whole.nonterminal_kind whole.augmented_start_known] at kind
      cases kind
    · exact ⟨front, shape, inner.without_eof⟩
  inner_texts := by
    intro symbol member other text generated
    exact (encloses.inner_from_other whole member other generated.2).without_eof
  begins_iff := by
    intro symbol member
    obtain ⟨entry, asked, _, begins_iff, _⟩ := first.symbol_answer whole (Or.inr member)
    refine ⟨entry, asked, (begins_iff _ grammar.eof_is_terminal).trans ?_⟩
    rw [first.is_nullable_iff whole (Or.inr whole.start_known)]
    exact encloses.eof_begins_iff whole member
  nullable_iff := first.is_nullable_iff whole (Or.inr whole.start_known)
  behind_augmented := by
    obtain ⟨indices, asked, follows_iff, indices_known⟩ :=
      follow.answer whole whole.augmented_start_known
    rw [asked]
    congr 1
    apply SortedSet.eq_of_same_members
    intro index
    constructor
    · intro found
      obtain ⟨terminal, present, rfl⟩ := indices_known index found
      have follows := (follows_iff terminal present).1 found
      exact absurd follows (encloses.nothing_follows_augmented whole terminal)
    · intro found
      exact absurd found (SortedSet.not_mem_empty index)
  behind_start := by
    obtain ⟨indices, asked, follows_iff, _⟩ := follow.answer whole whole.start_known
    refine ⟨indices, asked, (follows_iff _ grammar.eof_is_terminal).2 ?_⟩
    exact Or.inr ⟨rfl, [], .refl⟩
  follows_iff := by
    intro symbol member
    obtain ⟨indices, asked, follows_iff, _⟩ := follow.answer whole member
    refine ⟨indices, asked, (follows_iff _ grammar.eof_is_terminal).trans ?_⟩
    exact encloses.eof_follows_iff whole

end Encloses

end Grammar

namespace Declarations

variable {declarations : Declarations} {variant : Variant} {parts : Parts} {grammar : Grammar}

theorem implicit_vanishes (declarations : Declarations) (variant : Variant) (parts : Parts) :
    (declarations.grammarOf variant parts).Derives
      (declarations.implicitRule? variant).toList [] := by
  cases rule : declarations.implicitRule? variant with
  | none => exact .refl
  | some symbol =>
      have empty : (⟨symbol, [], none⟩ : Clause) ∈
          declarations.leadingClauses variant parts := by
        simp [leadingClauses, rule, implicitClauses]
      rw [← clauses_of_numbered (declarations.leadingClauses variant parts)] at empty
      obtain ⟨production, member, same⟩ := List.mem_map.1 empty
      have head : production.lhs = symbol := congrArg Clause.lhs same
      have body : production.rhs = [] := congrArg Clause.rhs same
      have listed : production ∈ (declarations.grammarOf variant parts).productions :=
        List.mem_append_left _ member
      have applied := Grammar.Derives.of_production listed
      rw [head, body] at applied
      exact applied

theorem Accepted.encloses (accepted : declarations.Accepted variant parts) :
    (declarations.grammarOf variant parts).Encloses where
  inner_bodies := by
    intro production member other
    rcases List.mem_append.1 member with leading | last
    · have apart := accepted.leading_production_apart leading
      exact ⟨apart.1, fun occurs => apart.2 (List.mem_cons_of_mem _ occurs)⟩
    · exact absurd (List.mem_singleton.1 last ▸ rfl) other
  one_for_augmented := fun _ member => (accepted.augmented_head_iff member).1
  start_body := by simp [grammarOf]
  inner_front := by
    refine ⟨accepted.eof_not_in_front, ?_⟩
    have unused := accepted.augmented_in_no_body (Grammar.start_production_mem _)
    intro among
    apply unused
    change _ ∈ (declarations.implicitRule? variant).toList ++ ([parts.start] ++ [_])
    rw [← List.append_assoc]
    exact List.mem_append_left _ among
  implicit_vanishes := implicit_vanishes declarations variant parts

/-- In every grammar built from declarations the end of the input is kept apart from all else. -/
theorem end_of_input_isolated (built : declarations.build variant = .ok grammar) :
    ∃ firsts follows, (FirstTable.ofGrammar grammar).outcome = .ok firsts ∧
      (FollowTable.ofGrammar grammar).outcome = .ok follows ∧
      grammar.IsolatesEnd firsts follows := by
  have whole := well_formed_of_build built
  obtain ⟨follows, found, exact⟩ := FollowTable.of_grammar_outcome whole
  obtain ⟨parts, accepted, rfl⟩ := build_eq_ok_iff.1 built
  exact ⟨_, follows, FirstTable.of_grammar_outcome whole, found,
    accepted.encloses.isolates_end whole (FirstTable.settled_exact whole) exact⟩

/-- A rule that bears the name of the end of the input, and a start rule that is recursive and may
derive nothing. -/
theorem end_of_clashing_and_tilde :
    clashingDeclarations.build .eco = .ok clashing ∧
      tildeDeclarations.build .eco = .ok tildeEco ∧
      (∃ firsts follows, clashing.IsolatesEnd firsts follows) ∧
      ∃ firsts follows, tildeEco.IsolatesEnd firsts follows := by
  obtain ⟨firsts, follows, _, _, clashes⟩ := end_of_input_isolated clashing_built
  obtain ⟨others, behind, _, _, tilde⟩ := end_of_input_isolated tilde_eco_built
  exact ⟨clashing_built, tilde_eco_built, ⟨firsts, follows, clashes⟩, ⟨others, behind, tilde⟩⟩

end Declarations

end GrammarKit
