import GrammarKit.Proofs.Follow.Exact
import GrammarKit.Proofs.Passes.Watched
import Mathlib.Data.Finset.Prod

/-!
# Passes of the set-valued analyses

Whether a terminal gets into the FIRST or FOLLOW sets in a pass has nothing to do with other
terminals. Seen from one terminal, a FIRST table says of each nonterminal whether it can vanish and
whether it can begin with the terminal, and a FOLLOW table whether the terminal can follow it. Those
facts are few, and they bound the passes for all terminals at once.
-/

namespace GrammarKit

set_option autoImplicit false

namespace Grammar

open Classical in
noncomputable def vanishing (grammar : Grammar) : Finset Symbol :=
  grammar.nonterminals.toFinset.filter fun symbol => grammar.Derives [symbol] []

theorem mem_vanishing_iff {grammar : Grammar} {symbol : Symbol} :
    symbol ∈ grammar.vanishing ↔ symbol ∈ grammar.nonterminals ∧ grammar.Derives [symbol] [] := by
  simp [vanishing]

end Grammar

namespace First

inductive Aspect where
  | vanishes
  | begins
deriving DecidableEq

/-- What an entry says, seen from the terminal with this index. -/
def Shows (index : Int) (entry : First) : Aspect → Prop
  | .vanishes => entry.nullable
  | .begins => index ∈ entry.tokens

theorem shows_either {index : Int} {left right : First} {aspect : Aspect} :
    (left.either right).Shows index aspect ↔
      left.Shows index aspect ∨ right.Shows index aspect := by
  cases aspect with
  | vanishes => simp [Shows, either]
  | begins => exact SortedSet.mem_union

theorem shows_and_then {index : Int} {left right : First} {aspect : Aspect} :
    (left.andThen right).Shows index aspect ↔
      left.Shows index .vanishes ∧ right.Shows index aspect ∨
        aspect = .begins ∧ left.Shows index .begins := by
  cases aspect with
  | vanishes => simp [Shows, nullable_and_then]
  | begins => simp [Shows, mem_and_then, or_comm]

theorem eq_of_shows {left right : First}
    (same : ∀ index aspect, left.Shows index aspect ↔ right.Shows index aspect) : left = right := by
  have tokens : left.tokens = right.tokens :=
    SortedSet.eq_of_same_members fun index => same index .begins
  have nullable : left.nullable = right.nullable := Bool.eq_iff_iff.2 (same 0 .vanishes)
  cases left
  cases right
  exact (mk.injEq _ _ _ _).mpr ⟨tokens, nullable⟩

end First

namespace FirstTable

variable {grammar : Grammar}

/-- Whether the table says so of a nonterminal, seen from the terminal with this index. -/
def Shows (grammar : Grammar) (index : Int) (table : FirstTable) (fact : Symbol × First.Aspect) :
    Prop :=
  fact.1 ∈ grammar.nonterminals ∧ (table.entry fact.1).Shows index fact.2

/-- Of no nonterminal that cannot vanish a table ever says that it can. -/
noncomputable def possible (grammar : Grammar) : Finset (Symbol × First.Aspect) :=
  grammar.vanishing ×ˢ {.vanishes} ∪ grammar.nonterminals.toFinset ×ˢ {.begins}

theorem card_possible_le (grammar : Grammar) :
    (possible grammar).card ≤ grammar.nonterminals.length + grammar.vanishing.card := by
  have listed := List.toFinset_card_le grammar.nonterminals
  have both : (possible grammar).card ≤ _ := Finset.card_union_le _ _
  rw [Finset.card_product, Finset.card_product, Finset.card_singleton,
    Finset.card_singleton] at both
  omega

theorem Sound.shows_possible {table : FirstTable} (sound : Sound grammar table) {index : Int}
    {fact : Symbol × First.Aspect} (shown : Shows grammar index table fact) :
    fact ∈ possible grammar := by
  obtain ⟨symbol, aspect⟩ := fact
  obtain ⟨member, said⟩ := shown
  unfold possible
  cases aspect with
  | vanishes =>
      have vanishes := Grammar.mem_vanishing_iff.2 ⟨member, sound.nullable symbol member said⟩
      simp [vanishes]
  | begins =>
      have listed : symbol ∈ grammar.nonterminals := member
      simp [listed]

section Views

variable (whole : grammar.WellFormed) {index : Int}

include whole

theorem shows_after_learn {table : FirstTable}
    (size : table.entries.length = grammar.nonterminals.length) {production : Production}
    (member : production ∈ grammar.productions) {fact : Symbol × First.Aspect} :
    Shows grammar index (table.learn production) fact ↔
      Shows grammar index table fact ∨
        fact.1 = production.lhs ∧ (table.scan production.rhs).Shows index fact.2 := by
  unfold Shows
  by_cases among : fact.1 ∈ grammar.nonterminals
  · rw [entry_after_learn whole size member among]
    split
    · next head =>
        simp only [First.shows_either, head, whole.heads_known production member, true_and]
    · next other => simp only [other, false_and, or_false]
  · have other : fact.1 ≠ production.lhs := by
      intro head
      exact among (head ▸ whole.heads_known production member)
    simp only [among, other, false_and, or_false]

/-- What a scan says depends on what the table says of nonterminals, and on nothing else. -/
theorem scan_shows_more {less more : FirstTable}
    (included : ∀ fact, Shows grammar index less fact → Shows grammar index more fact)
    {form : List Symbol} (known : grammar.KnowsAll form) (aspect : First.Aspect) :
    (less.scan form).Shows index aspect → (more.scan form).Shows index aspect := by
  have entries : ∀ symbol, grammar.Knows symbol → ∀ aspect,
      (less.entry symbol).Shows index aspect → (more.entry symbol).Shows index aspect := by
    intro symbol here aspect said
    by_cases terminal : symbol.isTerminal
    · rw [entry_of_terminal terminal] at said ⊢
      exact said
    · have member := whole.nonterminal_known here (by simpa using terminal)
      exact (included (symbol, aspect) ⟨member, said⟩).2
  induction form generalizing aspect with
  | nil => exact id
  | cons symbol rest ih =>
      have head := entries symbol (known symbol (by simp))
      have tail := ih known.tail
      simp only [scan, First.shows_and_then]
      rintro (⟨vanishes, later⟩ | ⟨begins, here⟩)
      · exact Or.inl ⟨head _ vanishes, tail _ later⟩
      · exact Or.inr ⟨begins, head _ here⟩

theorem gathers (index : Int) :
    Gathers (pass grammar.productions) (Sound grammar) (Shows grammar index) := by
  apply Gathers.fold
  intro production member
  have body := whole.body_known member
  constructor
  · intro table sound
    exact sound.after_learn whole member
  · intro table sound fact shown
    exact (shows_after_learn whole sound.size member).2 (Or.inl shown)
  · intro less more lessSound moreSound included fact shown
    apply (shows_after_learn whole moreSound.size member).2
    rcases (shows_after_learn whole lessSound.size member).1 shown with earlier | ⟨head, said⟩
    · exact Or.inl (included fact earlier)
    · exact Or.inr ⟨head, scan_shows_more whole included body _ said⟩

theorem eq_of_shows {left right : FirstTable} (leftSound : Sound grammar left)
    (rightSound : Sound grammar right)
    (same : ∀ index fact, Shows grammar index left fact ↔ Shows grammar index right fact) :
    left = right := by
  have entries : left.entries = right.entries := by
    apply whole.table_ext leftSound.size rightSound.size
    intro symbol member
    rw [entry_of_nonterminal whole leftSound.size member,
      entry_of_nonterminal whole rightSound.size member, Option.some.injEq]
    apply First.eq_of_shows
    intro index aspect
    have both := same index (symbol, aspect)
    simpa only [Shows, member, true_and] using both
  cases left
  exact congrArg FirstTable.mk entries

theorem settled_passes_le :
    (settled grammar).2 ≤ grammar.nonterminals.length + grammar.vanishing.card + 1 := by
  have few : (settled grammar).2 ≤ (possible grammar).card + 1 :=
    settle_passes_le_of_views (gathers whole) (fun _ _ sound _ shown => sound.shows_possible shown)
      (fun _ _ left right same => eq_of_shows whole left right same) (blank_sound whole) _
  have facts := card_possible_le grammar
  omega

/-- Without a bound the passes come to rest as the bounded ones do. -/
theorem rests_settled :
    Rests (Watched.pass learn grammar.productions) (blank grammar) (settled grammar).2
      (settled grammar).1 := by
  have enough : grammar.nonterminals.length * ((mentioned grammar).length + 1) <
      passBound grammar + (blank grammar).rank := by
    rw [pass_bound_eq]
    omega
  exact rests_as_settled (fun _ among _ holds => Bounded.after_learn whole holds among)
    (fun _ among _ holds => learn_grows whole holds among) (fun _ holds => Bounded.rank_le holds)
    (blank_bounded grammar) enough

end Views

end FirstTable

namespace FollowTable

variable {grammar : Grammar} {firsts : FirstTable}

def Shows (grammar : Grammar) (index : Int) (table : FollowTable) (symbol : Symbol) : Prop :=
  symbol ∈ grammar.nonterminals ∧ index ∈ table.tokensOf symbol.index

def Sized (grammar : Grammar) (table : FollowTable) : Prop :=
  table.entries.length = grammar.nonterminals.length

section Views

variable (whole : grammar.WellFormed)

include whole

theorem gathers (firsts : FirstTable) (index : Int) :
    Gathers (pass (Flow.all grammar firsts)) (Sized grammar) (Shows grammar index) := by
  apply Gathers.fold
  intro flow carried
  obtain ⟨production, member, occurrence, occurs, rfl⟩ := Flow.mem_all.1 carried
  have head := whole.heads_known production member
  have absorbed := fun (table : FollowTable) (size : Sized grammar table) (symbol : Symbol)
    (among : symbol ∈ grammar.nonterminals) =>
      mem_after_absorb whole size member occurs among firsts index
  constructor
  · intro table size
    exact (size_after_absorb table _).trans size
  · intro table size symbol shown
    exact ⟨shown.1, (absorbed table size symbol shown.1).2 (Or.inl shown.2)⟩
  · intro less more lessSize moreSize included symbol shown
    refine ⟨shown.1, (absorbed more moreSize symbol shown.1).2 ?_⟩
    rcases (absorbed less lessSize symbol shown.1).1 shown.2 with
      earlier | ⟨target, begins | ⟨vanishes, inherited⟩⟩
    · exact Or.inl (included symbol ⟨shown.1, earlier⟩).2
    · exact Or.inr ⟨target, Or.inl begins⟩
    · exact Or.inr ⟨target, Or.inr ⟨vanishes, (included production.lhs ⟨head, inherited⟩).2⟩⟩

theorem eq_of_shows {left right : FollowTable} (leftSize : Sized grammar left)
    (rightSize : Sized grammar right)
    (same : ∀ index symbol, Shows grammar index left symbol ↔ Shows grammar index right symbol) :
    left = right := by
  have entries : left.entries = right.entries := by
    apply whole.table_ext leftSize rightSize
    intro symbol member
    rw [tokens_of_nonterminal whole leftSize member, tokens_of_nonterminal whole rightSize member,
      Option.some.injEq]
    apply SortedSet.eq_of_same_members
    intro index
    have both := same index symbol
    simpa only [Shows, member, true_and] using both
  cases left
  exact congrArg FollowTable.mk entries

theorem settled_passes_le (firsts : FirstTable) :
    (settled grammar (Flow.all grammar firsts)).2 ≤ grammar.nonterminals.length + 1 := by
  have few : (settled grammar (Flow.all grammar firsts)).2 ≤
      grammar.nonterminals.toFinset.card + 1 :=
    settle_passes_le_of_views (gathers whole firsts)
      (fun _ _ _ _ shown => List.mem_toFinset.2 shown.1)
      (fun _ _ left right same => eq_of_shows whole left right same)
      (by simp [Sized, blank]) _
  have listed := List.toFinset_card_le grammar.nonterminals
  omega

theorem rests_settled (firsts : FirstTable) :
    Rests (Watched.pass absorb (Flow.all grammar firsts)) (blank grammar)
      (settled grammar (Flow.all grammar firsts)).2
      (settled grammar (Flow.all grammar firsts)).1 := by
  have enough : grammar.nonterminals.length * (carried grammar (Flow.all grammar firsts)).length <
      passBound grammar (Flow.all grammar firsts) + (blank grammar).rank := by
    rw [pass_bound_eq]
    omega
  exact rests_as_settled (fun _ among _ holds => Bounded.after_absorb holds among)
    (fun flow _ table _ => absorb_grows table flow) (fun _ holds => Bounded.rank_le holds)
    (blank_bounded whole (Flow.all grammar firsts)) enough

end Views

end FollowTable

namespace Grammar

variable {grammar : Grammar}

/-- The loops that make the FIRST and FOLLOW sets come to rest, in a number of passes that the
journal tells and that nonterminals bound. -/
theorem set_passes_bounded (whole : grammar.WellFormed) :
    ∃ firsts passes,
      FirstTable.ofGrammar grammar = ⟨[.firstsConverged passes], .ok firsts⟩ ∧
      (∀ others final,
        Rests (Watched.pass FirstTable.learn grammar.productions) (FirstTable.blank grammar)
          others final ↔ others = passes ∧ final = firsts) ∧
      passes ≤ grammar.nonterminals.length + grammar.vanishing.card + 1 ∧
      ∃ flows follows rounds,
        Flow.ofGrammar grammar firsts = .ok flows ∧
        FollowTable.ofFirsts grammar firsts = ⟨[.followsConverged rounds], .ok follows⟩ ∧
        (∀ others final,
          Rests (Watched.pass FollowTable.absorb flows) (FollowTable.blank grammar)
            others final ↔ others = rounds ∧ final = follows) ∧
        rounds ≤ grammar.nonterminals.length + 1 := by
  have exact := FirstTable.settled_exact whole
  refine ⟨_, _, FirstTable.of_grammar_eq whole, ?_, FirstTable.settled_passes_le whole,
    _, _, _, Flow.of_grammar_eq whole exact.size, FollowTable.of_firsts_eq whole exact, ?_,
    FollowTable.settled_passes_le whole _⟩
  · exact fun others final => (FirstTable.rests_settled whole).only
  · exact fun others final => (FollowTable.rests_settled whole _).only

theorem knot_set_passes_bounded :
    FirstTable.knot.WellFormed ∧
      ∃ passes rounds,
        (FollowTable.ofGrammar FirstTable.knot).notes =
          [.firstsConverged passes, .followsConverged rounds] ∧
        passes ≤ 4 + FirstTable.knot.vanishing.card + 1 ∧ rounds ≤ 4 + 1 := by
  have whole : FirstTable.knot.WellFormed := by decide
  obtain ⟨firsts, passes, made, _, few, _, _, rounds, _, followed, _, fewRounds⟩ :=
    set_passes_bounded whole
  refine ⟨whole, passes, rounds, ?_, few, fewRounds⟩
  change ((FirstTable.ofGrammar FirstTable.knot).andThen _).notes = _
  simp [made, Noted.andThen, followed]

end Grammar

end GrammarKit
