import GrammarKit.Proofs.Cost.LeastTables
import GrammarKit.Proofs.Passes.Watched

/-!
# Passes of the relaxations

The productive set grows by one nonterminal or more in each pass but the last. Expansions and costs
start from nothing and are lowered again and again, also where tokens are free, so no set grows with
them; what grows is the number of nonterminals that have come down to their least cost. The passes
are at most one more than the nonterminals in either case.
-/

namespace GrammarKit

set_option autoImplicit false

namespace Productive

variable {grammar : Grammar}

theorem is_productive_mono {production : Production} {less more : IndexSet}
    (included : ∀ index, index ∈ less → index ∈ more)
    (productive : production.isProductive less) : production.isProductive more := by
  apply List.all_eq_true.2
  intro symbol occurs
  have allowed := List.all_eq_true.1 productive symbol occurs
  rw [Bool.or_eq_true, decide_eq_true_eq] at allowed ⊢
  exact allowed.imp_right (included symbol.index)

theorem mem_learn_iff {production : Production} {known : IndexSet} {index : Int} :
    index ∈ learn known production ↔
      index ∈ known ∨ production.isProductive known ∧ index = production.lhs.index := by
  unfold learn
  split
  · next productive => simp [productive, or_comm]
  · next unproductive => simp [unproductive]

section Loops

variable (whole : grammar.WellFormed)

include whole

theorem gathers :
    Gathers (pass grammar.productions) (Sound grammar) (fun known index => index ∈ known) := by
  apply Gathers.fold
  intro production member
  constructor
  · intro known sound
    exact sound.after_learn whole member
  · intro known _ index earlier
    exact mem_learn_iff.2 (Or.inl earlier)
  · intro less more _ _ included index found
    apply mem_learn_iff.2
    rcases mem_learn_iff.1 found with earlier | ⟨productive, head⟩
    · exact Or.inl (included index earlier)
    · exact Or.inr ⟨is_productive_mono included productive, head⟩

theorem settled_passes_le : (settled grammar).2 ≤ grammar.nonterminals.length + 1 := by
  let possible := (grammar.nonterminals.map (·.index)).toFinset
  have initially : Sound grammar ∅ :=
    fun index found => absurd found (SortedSet.not_mem_empty index)
  have within : ∀ known, Sound grammar known → ∀ index ∈ known, index ∈ possible := by
    intro known sound index found
    obtain ⟨symbol, member, rfl, _⟩ := sound index found
    exact List.mem_toFinset.2 (List.mem_map_of_mem member)
  have few : (settled grammar).2 ≤ possible.card + 1 :=
    settle_passes_le_of_views (fun _ : Unit => gathers whole) (fun _ => within)
      (fun _ _ _ _ same => SortedSet.eq_of_same_members (same ())) initially _
  have listed : possible.card ≤ grammar.nonterminals.length :=
    (List.toFinset_card_le _).trans_eq (List.length_map _)
  omega

end Loops

theorem rests_settled (grammar : Grammar) :
    Rests (Watched.pass learn grammar.productions) ∅ (settled grammar).2 grammar.productive := by
  have initially : HeadsOnly grammar ∅ :=
    fun index found => absurd found (SortedSet.not_mem_empty index)
  have enough : grammar.productions.length <
      grammar.productions.length + 1 + SortedSet.size (∅ : IndexSet) := by omega
  exact rests_as_settled (fun _ among _ holds => HeadsOnly.after_learn holds among)
    (fun production _ known _ => learn_grows known production)
    (fun _ holds => HeadsOnly.size_le holds) initially enough

end Productive

namespace Grammar

variable {grammar : Grammar}

/-- The loops that find productive nonterminals, expansions and costs end, in at most one pass more
than there are nonterminals. A loop over numbers may end with a sum that overflows. -/
theorem relaxation_passes_bounded (whole : grammar.WellFormed) :
    (∃ passes ≤ grammar.nonterminals.length + 1, ∀ others final,
      Rests (Watched.pass Productive.learn grammar.productions) ∅ others final ↔
        others = passes ∧ final = grammar.productive) ∧
    (∃ sweeps ≤ grammar.nonterminals.length + 1, ∃ ended,
      (∀ others outcome,
        Sweep.Ends (Sweep.through grammar .free Cost.zero ⟨0, 1⟩) (CostTable.blank grammar)
          others outcome ↔ others = sweeps ∧ outcome = ended) ∧
      grammar.countExpansions = ended.map CostTable.expansionCounts) ∧
    ∀ charge : Symbol → Int, (∀ terminal ∈ grammar.terminals, 0 ≤ charge terminal) →
      (∃ costs : TokenCosts, ∀ terminal ∈ grammar.terminals,
        costs.of terminal = charge terminal) ∧
      ∀ costs : TokenCosts, (∀ terminal ∈ grammar.terminals,
          costs.of terminal = charge terminal) →
        ∃ sweeps ≤ grammar.nonterminals.length + 1, ∀ others outcome,
          Sweep.Ends (Sweep.through grammar costs ⟨0, 1⟩ Cost.zero) (CostTable.blank grammar)
            others outcome ↔ others = sweeps ∧ outcome = grammar.findCosts costs := by
  refine ⟨⟨_, Productive.settled_passes_le whole, ?_⟩, ?_, ?_⟩
  · exact fun others final => (Productive.rests_settled grammar).only
  · obtain ⟨sweeps, few, ends⟩ := Sweep.ends_from_blank whole (free_signed grammar)
      (rfl : Cost.add ⟨0, 1⟩ Cost.zero = ⟨0, 1⟩)
    exact ⟨sweeps, few, _, ends, count_expansions_eq_sums⟩
  · intro charge natural
    refine ⟨TokenCosts.charges_numbered whole charge, ?_⟩
    intro costs charged
    have signed : costs.Signed grammar := by
      intro terminal member
      rw [charged terminal member]
      exact natural terminal member
    rw [find_costs_eq_sums signed]
    exact Sweep.ends_from_blank whole signed (rfl : Cost.add Cost.zero ⟨0, 1⟩ = ⟨0, 1⟩)

/-- The production with the recursion comes first and its letters are free, so the first pass learns
less than it could. -/
theorem recursion_first_passes_bounded :
    recursionFirst.WellFormed ∧
      (∃ passes ≤ 3, Rests (Watched.pass Productive.learn recursionFirst.productions) ∅ passes
        recursionFirst.productive) ∧
      ∃ costs : TokenCosts, (∀ terminal ∈ recursionFirst.terminals, costs.of terminal = 0) ∧
        ∃ sweeps ≤ 3, Sweep.Ends (Sweep.through recursionFirst costs ⟨0, 1⟩ Cost.zero)
          (CostTable.blank recursionFirst) sweeps (recursionFirst.findCosts costs) := by
  have whole : recursionFirst.WellFormed := by decide
  obtain ⟨⟨passes, few, rests⟩, _, charged⟩ := relaxation_passes_bounded whole
  obtain ⟨⟨costs, free⟩, ended⟩ := charged (fun _ => 0) fun _ _ => Int.le_refl 0
  obtain ⟨sweeps, fewSweeps, ends⟩ := ended costs free
  exact ⟨whole, ⟨passes, few, (rests _ _).2 ⟨rfl, rfl⟩⟩, costs, free, sweeps, fewSweeps,
    (ends _ _).2 ⟨rfl, rfl⟩⟩

end Grammar

end GrammarKit
