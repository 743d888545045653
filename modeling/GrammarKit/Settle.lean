/-!
# Running a pass until nothing changes

The analyses of a grammar repeat a pass over its productions until a pass leaves the state as it
was. The number of passes is counted, the last one included. A caller bounds the passes; when each
pass that changes something uses up part of a bounded quantity, the answer is a fixed point.
-/

namespace GrammarKit

set_option autoImplicit false

variable {σ : Type} [DecidableEq σ]

/-- Repeats `pass`, at most `fuel` times, and returns the last state with the number of passes. -/
def settle (pass : σ → σ) : Nat → σ → σ × Nat
  | 0, state => (state, 0)
  | fuel + 1, state =>
      let next := pass state
      if next = state then (state, 1)
      else
        let (final, passes) := settle pass fuel next
        (final, passes + 1)

/-- What every pass keeps holds at the end. -/
theorem settle_keeps {pass : σ → σ} {Invariant : σ → Prop}
    (kept : ∀ state, Invariant state → Invariant (pass state)) (fuel : Nat) {state : σ}
    (initially : Invariant state) : Invariant (settle pass fuel state).1 := by
  induction fuel generalizing state with
  | zero => exact initially
  | succ fuel ih =>
      simp only [settle]
      split
      · exact initially
      · exact ih (kept state initially)

/-- The answer is a fixed point when every change raises a bounded rank. -/
theorem settle_is_fixed {pass : σ → σ} {Invariant : σ → Prop} {rank : σ → Nat} {bound : Nat}
    (kept : ∀ state, Invariant state → Invariant (pass state))
    (bounded : ∀ state, Invariant state → rank state ≤ bound)
    (raised : ∀ state, Invariant state → pass state ≠ state → rank state < rank (pass state))
    {fuel : Nat} {state : σ} (initially : Invariant state) (enough : bound < fuel + rank state) :
    pass (settle pass fuel state).1 = (settle pass fuel state).1 := by
  induction fuel generalizing state with
  | zero =>
      have := bounded state initially
      omega
  | succ fuel ih =>
      simp only [settle]
      split
      · assumption
      · rename_i changed
        refine ih (kept state initially) ?_
        have := raised state initially changed
        omega

end GrammarKit
