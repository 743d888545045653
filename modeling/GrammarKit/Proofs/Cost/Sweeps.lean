import GrammarKit.Proofs.Cost.Overflow

/-!
# Sweeps until nothing improves

A table of costs is made by sweeps through the productions that go on until one of them improves no
entry. Nothing bounds their number beforehand, and a sum may overflow half way through a sweep. Each
sweep that improves an entry brings it down to the cost of a tree that was not covered before, and
settles a nonterminal for good. So the sweeps come to an end, within one sweep more than there are
nonterminals, and they come to what the bounded passes find.
-/

namespace GrammarKit

set_option autoImplicit false

open DerivationTree

/-- A table on its way through the productions, and whether any entry has been improved so far. -/
structure Sweep where
  table : CostTable
  improved : Bool

namespace Sweep

/-- Adds up the symbols of a right-hand side and takes what is better for the head, the sum or the
entry. The sum begins with `start`, and `closing` is added when it is complete. -/
def relax (costs : TokenCosts) (start closing : Cost) (sweep : Sweep) (production : Production) :
    Except Fault Sweep := do
  let body ← production.rhs.foldlM (sweep.table.gather costs) (some start)
  let found := Cost.sum (some closing) body
  return {
    table := ⟨amend sweep.table.entries production.lhs.index (Cost.better found)⟩
    improved := sweep.improved || Cost.improves found (sweep.table.costAt production.lhs.index)
  }

def through (grammar : Grammar) (costs : TokenCosts) (start closing : Cost) (table : CostTable) :
    Except Fault Sweep :=
  grammar.productions.foldlM (relax costs start closing) ⟨table, false⟩

/-- A sweep follows upon each sweep that improves something. The number counts all sweeps. -/
inductive Ends (sweep : CostTable → Except Fault Sweep) :
    CostTable → Nat → Except Fault CostTable → Prop where
  | settled {table final : CostTable} (swept : sweep table = .ok ⟨final, false⟩) :
      Ends sweep table 1 (.ok final)
  | improved {table next : CostTable} {sweeps : Nat} {outcome : Except Fault CostTable}
      (swept : sweep table = .ok ⟨next, true⟩) (later : Ends sweep next sweeps outcome) :
      Ends sweep table (sweeps + 1) outcome
  | failed {table : CostTable} {fault : Fault} (swept : sweep table = .error fault) :
      Ends sweep table 1 (.error fault)

theorem Ends.unique {sweep : CostTable → Except Fault Sweep} {table : CostTable}
    {sweeps others : Nat} {left right : Except Fault CostTable}
    (first : Ends sweep table sweeps left) (second : Ends sweep table others right) :
    sweeps = others ∧ left = right := by
  induction first generalizing others right with
  | settled swept =>
      cases second with
      | settled again =>
          cases swept.symm.trans again
          exact ⟨rfl, rfl⟩
      | improved again _ => cases swept.symm.trans again
      | failed again => cases swept.symm.trans again
  | improved swept _ ih =>
      cases second with
      | settled again => cases swept.symm.trans again
      | improved again later =>
          cases swept.symm.trans again
          obtain ⟨rfl, rfl⟩ := ih later
          exact ⟨rfl, rfl⟩
      | failed again => cases swept.symm.trans again
  | failed swept =>
      cases second with
      | settled again => cases swept.symm.trans again
      | improved again _ => cases swept.symm.trans again
      | failed again =>
          cases swept.symm.trans again
          exact ⟨rfl, rfl⟩

section Steps

variable {grammar : Grammar} {costs : TokenCosts} {start closing : Cost} {sweep : Sweep}
  {production : Production}

/-- The sweep after a production that makes no fault. -/
def learn (costs : TokenCosts) (sweep : Sweep) (production : Production) : Sweep where
  table := sweep.table.learn costs production
  improved := sweep.improved || Cost.improves (sweep.table.ofProduction costs production)
    (sweep.table.costAt production.lhs.index)

theorem relax_cases (whole : grammar.WellFormed)
    (size : sweep.table.entries.length = grammar.nonterminals.length)
    (expansion : closing.add start = ⟨0, 1⟩) (listed : production ∈ grammar.productions) :
    (sweep.table.faultOf costs start production = none ∧
      sweep.relax costs start closing production = .ok (sweep.learn costs production)) ∨
    ∃ fault, sweep.table.faultOf costs start production = some fault ∧
      sweep.relax costs start closing production = .error fault := by
  unfold relax CostTable.faultOf
  cases gathered : production.rhs.foldlM (sweep.table.gather costs) (some start) with
  | error fault => exact Or.inr ⟨fault, rfl, rfl⟩
  | ok body =>
      have summed := CostTable.gathered_eq whole size (whole.body_known listed) gathered
      have found : Cost.sum (some closing) body = sweep.table.ofProduction costs production := by
        rw [summed, ← Cost.sum_assoc]
        change Cost.sum (some (closing.add start)) _ = _
        rw [expansion]
        rfl
      refine Or.inl ⟨rfl, ?_⟩
      change Except.ok _ = Except.ok _
      rw [found]
      rfl

/-- What holds on the way through the productions, seen from the table at the outset. -/
structure Reached (grammar : Grammar) (costs : TokenCosts) (old : CostTable) (sweep : Sweep) :
    Prop where
  sound : CostTable.Sound grammar costs sweep.table
  lowered : CostTable.Lowers grammar old sweep.table
  unimproved : sweep.improved = false → sweep.table = old
  improvement : sweep.improved = true → ∃ tree, Complete grammar tree ∧
    tree.root ∈ grammar.nonterminals ∧ ¬CostTable.Covers costs old tree ∧
      CostTable.Covers costs sweep.table tree

theorem Reached.outset {old : CostTable} (sound : CostTable.Sound grammar costs old) :
    Reached grammar costs old ⟨old, false⟩ where
  sound := sound
  lowered := .refl sound.size
  unimproved := fun _ => rfl
  improvement := fun improved => by cases improved

theorem learn_unimproved {table : CostTable}
    (unimproved : Cost.improves (table.ofProduction costs production)
      (table.costAt production.lhs.index) = false) :
    table.learn costs production = table := by
  have idle : amend table.entries production.lhs.index
      (Cost.better (table.ofProduction costs production)) = table.entries := by
    apply amend_idle
    intro entry read
    have known : table.costAt production.lhs.index = entry := by
      unfold CostTable.costAt
      rw [read]
      rfl
    rw [Cost.better, ← known, unimproved]
    rfl
  exact congrArg CostTable.mk idle

/-- A better sum is the cost of a tree that the table has not covered. -/
theorem learn_improved (whole : grammar.WellFormed) {table : CostTable}
    (sound : CostTable.Sound grammar costs table) (listed : production ∈ grammar.productions)
    (improved : Cost.improves (table.ofProduction costs production)
      (table.costAt production.lhs.index)) :
    ∃ tree, Complete grammar tree ∧ tree.root = production.lhs ∧
      ¬CostTable.Covers costs table tree ∧
        CostTable.Covers costs (table.learn costs production) tree := by
  have head := whole.heads_known production listed
  have nonterminal := whole.nonterminal_kind head
  cases found : table.ofProduction costs production with
  | none =>
      rw [found] at improved
      cases improved
  | some cost =>
      obtain ⟨tree, complete, start, rfl⟩ := sound.of_production whole listed found
      refine ⟨tree, complete, start, ?_, ?_⟩
      · unfold CostTable.Covers
        rw [start, CostTable.of_symbol_nonterminal nonterminal, Cost.meets_iff, ← found, improved]
        simp
      · refine ⟨tree.cost costs, ?_, .refl _⟩
        rw [start, CostTable.of_symbol_nonterminal nonterminal,
          CostTable.cost_at_learn whole sound.size head head, if_pos rfl, Cost.better,
          if_pos improved, found]

theorem Reached.after_learn {old : CostTable} (reached : Reached grammar costs old sweep)
    (whole : grammar.WellFormed) (listed : production ∈ grammar.productions) :
    Reached grammar costs old (sweep.learn costs production) := by
  have head := whole.heads_known production listed
  have now : CostTable.Lowers grammar sweep.table (sweep.table.learn costs production) :=
    (CostTable.Lowers.refl reached.sound.size).after_learn whole head
  refine ⟨reached.sound.after_learn whole listed, reached.lowered.after_learn whole head, ?_, ?_⟩
  · intro unimproved
    obtain ⟨before, here⟩ := Bool.or_eq_false_iff.1 unimproved
    exact (learn_unimproved here).trans (reached.unimproved before)
  · intro improved
    rcases (Bool.or_eq_true _ _).mp improved with before | here
    · obtain ⟨tree, complete, member, uncovered, covered⟩ := reached.improvement before
      exact ⟨tree, complete, member, uncovered, covered.after now whole (Or.inr member)⟩
    · obtain ⟨tree, complete, start, uncovered, covered⟩ :=
        learn_improved whole reached.sound listed here
      have member : tree.root ∈ grammar.nonterminals := start ▸ head
      refine ⟨tree, complete, member, ?_, covered⟩
      exact fun already => uncovered (already.after reached.lowered whole (Or.inr member))

end Steps

section Faults

variable {grammar : Grammar} {costs : TokenCosts} {start closing : Cost}

theorem trial_table (productions : List Production) (trial : Trial) :
    (productions.foldl (Trial.learn costs start) trial).table =
      productions.foldl (CostTable.learn costs) trial.table := by
  induction productions generalizing trial with
  | nil => rfl
  | cons production rest ih => exact ih _

theorem trial_fault_kept (productions : List Production) {trial : Trial} {fault : Fault}
    (failed : trial.fault = some fault) :
    (productions.foldl (Trial.learn costs start) trial).fault = some fault := by
  refine fold_keeps (motive := fun later : Trial => later.fault = some fault) ?_ failed
  intro production _ later earlier
  change later.fault.or _ = _
  rw [earlier]
  rfl

theorem run_cases (whole : grammar.WellFormed) (expansion : closing.add start = ⟨0, 1⟩)
    {old : CostTable} {productions : List Production}
    (listed : ∀ production ∈ productions, production ∈ grammar.productions) {sweep : Sweep}
    (reached : Reached grammar costs old sweep) :
    (∃ final, productions.foldlM (relax costs start closing) sweep = .ok final ∧
      Reached grammar costs old final ∧
      productions.foldl (Trial.learn costs start) ⟨sweep.table, none⟩ = ⟨final.table, none⟩) ∨
    ∃ fault, productions.foldlM (relax costs start closing) sweep = .error fault ∧
      (productions.foldl (Trial.learn costs start) ⟨sweep.table, none⟩).fault = some fault := by
  induction productions generalizing sweep with
  | nil => exact Or.inl ⟨sweep, rfl, reached, rfl⟩
  | cons production rest ih =>
      have here := listed production (by simp)
      rw [List.foldlM_cons, List.foldl_cons]
      rcases relax_cases whole reached.sound.size expansion here with
        ⟨sound, learnt⟩ | ⟨fault, faulty, failed⟩
      · rw [learnt, Trial.learn, sound]
        exact ih (fun other member => listed other (by simp [member]))
          (reached.after_learn whole here)
      · rw [failed]
        refine Or.inr ⟨fault, rfl, trial_fault_kept rest ?_⟩
        exact faulty

def verdict (trial : Trial) : Except Fault Unit :=
  match trial.fault with
  | some fault => throw fault
  | none => return ()

theorem settled_fault_kept (productions : List Production) {trial : Trial} {fault : Fault}
    (failed : trial.fault = some fault) (fuel : Nat) :
    (settle (Trial.pass costs start productions) fuel trial).1.fault = some fault := by
  have kept : ∀ later : Trial, later.fault = some fault →
      (Trial.pass costs start productions later).fault = some fault :=
    fun _ earlier => trial_fault_kept productions earlier
  exact settle_keeps kept fuel failed

/-- What the bounded passes find, starting from a table. -/
def bounded (grammar : Grammar) (costs : TokenCosts) (start : Cost) (bound : Nat)
    (table : CostTable) : Except Fault CostTable :=
  (verdict (settle (Trial.pass costs start grammar.productions) (bound + 2)
    ⟨table, none⟩).1).map fun _ =>
      (settle (CostTable.pass costs grammar.productions) (bound + 1) table).1

/-- A sweep fails, leaves everything as it is, or settles a nonterminal, and so do the passes. -/
theorem through_cases (whole : grammar.WellFormed) (expansion : closing.add start = ⟨0, 1⟩)
    {table : CostTable} (sound : CostTable.Sound grammar costs table) :
    (∃ fault, through grammar costs start closing table = .error fault ∧
      (Trial.pass costs start grammar.productions ⟨table, none⟩).fault = some fault) ∨
    (through grammar costs start closing table = .ok ⟨table, false⟩ ∧
      Trial.pass costs start grammar.productions ⟨table, none⟩ = ⟨table, none⟩) ∨
    ∃ next, through grammar costs start closing table = .ok ⟨next, true⟩ ∧
      Trial.pass costs start grammar.productions ⟨table, none⟩ = ⟨next, none⟩ ∧
      next ≠ table ∧ CostTable.Sound grammar costs next ∧
      0 < CostTable.lack grammar costs table := by
  rcases run_cases whole expansion (fun _ listed => listed) (Reached.outset sound) with
    ⟨final, swept, reached, tried⟩ | ⟨fault, failed, faulty⟩
  · obtain ⟨next, improved⟩ := final
    cases improved with
    | false =>
        obtain rfl : next = table := reached.unimproved rfl
        exact Or.inr (Or.inl ⟨swept, tried⟩)
    | true =>
        obtain ⟨tree, complete, member, uncovered, covered⟩ := reached.improvement rfl
        refine Or.inr (Or.inr ⟨next, swept, tried, ?_, reached.sound, ?_⟩)
        · rintro rfl
          exact uncovered covered
        · apply Finset.card_pos.2
          exact ⟨tree.root, CostTable.mem_pending_set_iff.2
            ⟨member, tree, complete, rfl, uncovered⟩⟩
  · exact Or.inl ⟨fault, failed, faulty⟩

theorem pass_of_trial {table next : CostTable}
    (tried : Trial.pass costs start grammar.productions ⟨table, none⟩ = ⟨next, none⟩) :
    CostTable.pass costs grammar.productions table = next := by
  have passed : (Trial.pass costs start grammar.productions ⟨table, none⟩).table =
      CostTable.pass costs grammar.productions table := trial_table _ _
  exact passed.symm.trans (congrArg Trial.table tried)

section Bounded

variable {table : CostTable}

theorem bounded_of_fault {fault : Fault}
    (faulty : (Trial.pass costs start grammar.productions ⟨table, none⟩).fault = some fault)
    (bound : Nat) : bounded grammar costs start bound table = .error fault := by
  have changed : Trial.pass costs start grammar.productions ⟨table, none⟩ ≠ ⟨table, none⟩ := by
    intro same
    rw [same] at faulty
    cases faulty
  unfold bounded verdict
  rw [settle_changed changed, settled_fault_kept _ faulty]
  rfl

theorem bounded_of_rest
    (tried : Trial.pass costs start grammar.productions ⟨table, none⟩ = ⟨table, none⟩)
    (bound : Nat) : bounded grammar costs start bound table = .ok table := by
  unfold bounded
  rw [settle_fixed tried, settle_fixed (pass_of_trial tried)]
  rfl

theorem bounded_of_change {next : CostTable} (changed : next ≠ table)
    (tried : Trial.pass costs start grammar.productions ⟨table, none⟩ = ⟨next, none⟩)
    (bound : Nat) :
    bounded grammar costs start (bound + 1) table = bounded grammar costs start bound next := by
  have trial_changed :
      Trial.pass costs start grammar.productions ⟨table, none⟩ ≠ ⟨table, none⟩ := by
    rw [tried]
    intro same
    exact changed (congrArg Trial.table same)
  have passed := pass_of_trial tried
  unfold bounded
  rw [settle_changed trial_changed, tried, settle_changed (by rwa [passed]), passed]

end Bounded

/-- The sweeps end like the passes that are bounded by the number of unsettled nonterminals. -/
theorem ends_within (whole : grammar.WellFormed) (signed : costs.Signed grammar)
    (expansion : closing.add start = ⟨0, 1⟩) (bound : Nat) {table : CostTable}
    (sound : CostTable.Sound grammar costs table)
    (enough : CostTable.lack grammar costs table ≤ bound) :
    ∃ sweeps ≤ bound + 1, Ends (through grammar costs start closing) table sweeps
      (bounded grammar costs start bound table) := by
  induction bound generalizing table with
  | zero =>
      rcases through_cases whole expansion sound with
        ⟨fault, failed, faulty⟩ | ⟨swept, tried⟩ | ⟨_, _, _, _, _, lacking⟩
      · rw [bounded_of_fault faulty]
        exact ⟨1, Nat.le_refl 1, .failed failed⟩
      · rw [bounded_of_rest tried]
        exact ⟨1, Nat.le_refl 1, .settled swept⟩
      · omega
  | succ bound ih =>
      rcases through_cases whole expansion sound with
        ⟨fault, failed, faulty⟩ | ⟨swept, tried⟩ | ⟨next, swept, tried, changed, later, lacking⟩
      · rw [bounded_of_fault faulty]
        exact ⟨1, by omega, .failed failed⟩
      · rw [bounded_of_rest tried]
        exact ⟨1, by omega, .settled swept⟩
      · have less := CostTable.pass_lowers_lack whole signed sound.size
        rw [pass_of_trial tried] at less
        obtain ⟨sweeps, few, ends⟩ := ih later (by omega)
        rw [bounded_of_change changed tried]
        exact ⟨sweeps + 1, by omega, .improved swept ends⟩

/-- The sweeps over an empty table end within one sweep more than there are nonterminals. -/
theorem ends_from_blank (whole : grammar.WellFormed) (signed : costs.Signed grammar)
    (expansion : closing.add start = ⟨0, 1⟩) :
    ∃ sweeps ≤ grammar.nonterminals.length + 1, ∀ others outcome,
      Ends (through grammar costs start closing) (CostTable.blank grammar) others outcome ↔
        others = sweeps ∧ outcome =
          (grammar.checkSums costs start).map fun _ => CostTable.ofGrammar grammar costs := by
  obtain ⟨sweeps, few, ends⟩ := ends_within whole signed expansion grammar.nonterminals.length
    (CostTable.blank_sound whole) (CostTable.lack_le _)
  refine ⟨sweeps, few, ?_⟩
  intro others outcome
  constructor
  · intro other
    exact other.unique ends
  · intro same
    obtain ⟨rfl, rfl⟩ := same
    exact ends

end Faults

end Sweep

end GrammarKit
