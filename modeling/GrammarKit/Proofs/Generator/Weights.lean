import GrammarKit.Proofs.Generator.Needs

/-!
# Weights of candidates

Before a picker is asked, the weights of the candidates are summed up. Doubles always have a sum, and
without weights there is nothing to sum. The one row without a sum has a whole number in it that lies
beyond all doubles.
-/

namespace GrammarKit

set_option autoImplicit false

namespace Weight

theorem fits_double_zero : fitsDouble 0 = true := by
  have limit : 0 < doubleLimit := by
    unfold doubleLimit
    apply Nat.sub_pos_of_lt
    apply Nat.pow_lt_pow_right <;> decide
  exact decide_eq_true limit

theorem total_of_reals {weights : List Weight}
    (reals : ∀ weight ∈ weights, ∃ value, weight = .real value) :
    ∃ total, Weight.total? weights = some total := by
  have zero : ∃ double, toDouble? (whole 0) = some double := by
    simp only [toDouble?, fits_double_zero, if_true]
    exact ⟨_, rfl⟩
  suffices summed : ∀ start : Weight, (∃ double, start.toDouble? = some double) →
      ∃ total, weights.foldlM add? start = some total from summed (whole 0) zero
  induction weights with
  | nil => exact fun start _ => ⟨start, rfl⟩
  | cons weight rest ih =>
      intro start fits
      obtain ⟨value, rfl⟩ := reals weight List.mem_cons_self
      obtain ⟨double, known⟩ := fits
      have sum : start.add? (.real value) = some (.real (double + value)) := by
        cases start <;> simp_all [add?, toDouble?]
      rw [List.foldlM_cons, sum]
      exact ih (fun other member => reals other (by simp [member])) (.real (double + value))
        ⟨_, rfl⟩

theorem total_beside_real {value : Int} (beyond : fitsDouble value = false) (double : Float) :
    Weight.total? [.whole value, .real double] = none := by
  have start : (whole 0).add? (whole value) = some (whole value) := by
    rw [add?, Int.zero_add]
  have failed : (whole value).add? (real double) = none := by
    simp [add?, toDouble?, beyond]
  rw [Weight.total?, List.foldlM_cons, start, Option.bind_eq_bind, Option.bind_some,
    List.foldlM_cons, failed]
  rfl

theorem limit_beyond : fitsDouble doubleLimit = false := by
  unfold fitsDouble
  rw [Int.natAbs_natCast]
  exact decide_eq_false (Nat.lt_irrefl doubleLimit)

end Weight

namespace Generator

variable {generator : Generator} {candidates : List Production}

/-- The weights of the candidates have no sum. -/
def Unsummed (generator : Generator) (candidates : List Production) : Prop :=
  Weight.total? (candidates.map generator.weightOf) = none

theorem unsummed_of_unweighed {fault : Fault}
    (unweighed : generator.weightsFor candidates = .error fault) :
    fault = .numberTooLarge ∧ generator.Unsummed candidates := by
  unfold weightsFor at unweighed
  split at unweighed
  · cases unweighed
  · dsimp only at unweighed
    cases summed : Weight.total? (candidates.map generator.weightOf) with
    | some total =>
        rw [summed] at unweighed
        cases unweighed
    | none =>
        rw [summed] at unweighed
        cases unweighed
        exact ⟨rfl, summed⟩

section Reals

variable (reals : ∀ entry ∈ generator.weights.entries, ∃ value, entry.2 = .real value)

include reals

theorem weight_of_reals (production : Production) :
    ∃ value, generator.weightOf production = .real value := by
  unfold weightOf Register.find?
  cases found : generator.weights.entries.find? fun entry => entry.1 = production.index with
  | none => exact ⟨1.0, rfl⟩
  | some entry => exact reals entry (List.mem_of_find?_eq_some found)

theorem not_unsummed_of_reals (candidates : List Production) :
    ¬ generator.Unsummed candidates := by
  intro unsummed
  have each : ∀ weight ∈ candidates.map generator.weightOf, ∃ value, weight = .real value := by
    intro weight among
    obtain ⟨production, _, rfl⟩ := List.mem_map.1 among
    exact weight_of_reals reals production
  obtain ⟨total, summed⟩ := Weight.total_of_reals each
  rw [Unsummed, summed] at unsummed
  cases unsummed

end Reals

section Unweighted

variable (unweighted : generator.weights.isEmpty)

include unweighted

theorem not_unsummed_of_unweighted (candidates : List Production) :
    ¬ generator.Unsummed candidates := by
  apply not_unsummed_of_reals
  rw [List.isEmpty_iff.1 unweighted]
  intro entry absent
  cases absent

theorem weights_for_unweighted (candidates : List Production) :
    generator.weightsFor candidates = .ok none := by
  unfold weightsFor
  rw [if_pos unweighted]
  rfl

end Unweighted

/-- The picker picks one of the candidates for a node whenever it is handed them with their weights. -/
def ServedBy {σ : Type} (generator : Generator) (picker : Picker σ) : Prop :=
  ∀ symbol allowance weights,
    generator.weightsFor (generator.candidates symbol allowance) = .ok weights →
      ∀ nonempty source, ∃ place,
        (picker.pick (generator.candidates symbol allowance).length nonempty weights source).1 =
          .ok place

/-- Random numbers serve every generator without weights, and so does every script. -/
theorem served_of_unweighted (unweighted : generator.weights.isEmpty) :
    generator.ServedBy Source.picker := by
  intro symbol allowance weights weighed nonempty source
  rw [weights_for_unweighted unweighted] at weighed
  cases weighed
  match source with
  | .scripted [] => exact ⟨_, rfl⟩
  | .scripted (first :: rest) => exact ⟨_, rfl⟩
  | .random twister => exact ⟨_, rfl⟩

end Generator

end GrammarKit
