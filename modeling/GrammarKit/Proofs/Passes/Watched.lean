import GrammarKit.Proofs.Saturation
import Mathlib.Data.Finset.Card
import Mathlib.Logic.Function.Iterate

/-!
# Passes that are watched

A loop that knows no bound watches its own passes: each step tells whether it changed the state, and
another pass follows upon each pass with a step that did. Such a loop comes to rest after as many
passes as the bounded one counts.

The number of passes follows from what one pass passes on. A state is seen as the facts that hold in
it. Passes never take a fact away, and what a pass adds depends on nothing but the facts that hold
before it. So facts that one pass leaves as they are stay as they are, and until then each pass adds
one of finitely many.
-/

namespace GrammarKit

set_option autoImplicit false

/-- A state on its way through a pass, and whether any step has changed it so far. -/
structure Watched (σ : Type) where
  state : σ
  changed : Bool

/-- A pass follows upon each pass that changes something. The number counts all passes. -/
inductive Rests {σ : Type} (pass : σ → Watched σ) : σ → Nat → σ → Prop where
  | unchanged {state final : σ} (passed : pass state = ⟨final, false⟩) : Rests pass state 1 final
  | changed {state next final : σ} {passes : Nat} (passed : pass state = ⟨next, true⟩)
      (later : Rests pass next passes final) : Rests pass state (passes + 1) final

theorem Rests.unique {σ : Type} {pass : σ → Watched σ} {state left right : σ} {passes others : Nat}
    (first : Rests pass state passes left) (second : Rests pass state others right) :
    others = passes ∧ right = left := by
  induction first generalizing others right with
  | unchanged passed =>
      cases second with
      | unchanged again =>
          cases passed.symm.trans again
          exact ⟨rfl, rfl⟩
      | changed again _ => cases passed.symm.trans again
  | changed passed _ ih =>
      cases second with
      | unchanged again => cases passed.symm.trans again
      | changed again later =>
          cases passed.symm.trans again
          obtain ⟨rfl, rfl⟩ := ih later
          exact ⟨rfl, rfl⟩

theorem Rests.only {σ : Type} {pass : σ → Watched σ} {state final other : σ} {passes others : Nat}
    (rests : Rests pass state passes final) :
    Rests pass state others other ↔ others = passes ∧ other = final := by
  constructor
  · exact rests.unique
  · intro same
    obtain ⟨rfl, rfl⟩ := same
    exact rests

namespace Watched

variable {σ ι : Type} [DecidableEq σ] {learn : σ → ι → σ} {items : List ι}

def step (learn : σ → ι → σ) (watched : Watched σ) (item : ι) : Watched σ :=
  let next := learn watched.state item
  ⟨next, watched.changed || decide (next ≠ watched.state)⟩

def pass (learn : σ → ι → σ) (items : List ι) (state : σ) : Watched σ :=
  items.foldl (step learn) ⟨state, false⟩

theorem fold_state (watched : Watched σ) :
    (items.foldl (step learn) watched).state = items.foldl learn watched.state := by
  induction items generalizing watched with
  | nil => rfl
  | cons item rest ih => exact ih (step learn watched item)

theorem pass_state (state : σ) : (pass learn items state).state = items.foldl learn state :=
  fold_state _

theorem fold_changed_kept {watched : Watched σ} (changed : watched.changed = true) :
    (items.foldl (step learn) watched).changed = true := by
  refine fold_keeps (motive := fun later : Watched σ => later.changed = true) ?_ changed
  intro item _ later earlier
  change (later.changed || _) = true
  rw [earlier]
  rfl

theorem step_of_idle {watched : Watched σ} {item : ι}
    (idle : learn watched.state item = watched.state) : step learn watched item = watched := by
  unfold step
  simp [idle]

theorem pass_of_idle {state : σ} (idle : ∀ item ∈ items, learn state item = state) :
    pass learn items state = ⟨state, false⟩ :=
  fold_idle fun item member => step_of_idle (idle item member)

theorem pass_of_change {state : σ} (different : items.foldl learn state ≠ state) :
    pass learn items state = ⟨items.foldl learn state, true⟩ := by
  have changed : (pass learn items state).changed = true := by
    unfold pass
    induction items with
    | nil => exact absurd rfl different
    | cons item rest ih =>
        rw [List.foldl_cons] at different ⊢
        by_cases same : learn state item = state
        · have idle : step learn ⟨state, false⟩ item = ⟨state, false⟩ := step_of_idle same
          rw [same] at different
          rw [idle]
          exact ih different
        · apply fold_changed_kept
          simp [step, same]
  rw [← pass_state state, ← changed]

end Watched

section Bounded

variable {σ ι : Type} [DecidableEq σ] {learn : σ → ι → σ} {items : List ι} {rank : σ → Nat}
  {Invariant : σ → Prop} {bound : Nat}

/-- Where each step that changes something raises a bounded rank, the loop comes to rest as the
bounded passes do. -/
theorem rests_as_settled
    (kept : ∀ item ∈ items, ∀ state, Invariant state → Invariant (learn state item))
    (grows : ∀ item ∈ items, ∀ state, Invariant state →
      learn state item = state ∨ rank state < rank (learn state item))
    (bounded : ∀ state, Invariant state → rank state ≤ bound)
    {fuel : Nat} {state : σ} (initially : Invariant state) (enough : bound < fuel + rank state) :
    Rests (Watched.pass learn items) state
      (settle (fun state => items.foldl learn state) fuel state).2
      (settle (fun state => items.foldl learn state) fuel state).1 := by
  induction fuel generalizing state with
  | zero =>
      have := bounded state initially
      omega
  | succ fuel ih =>
      simp only [settle]
      split
      · next same =>
          rcases fold_grows kept grows initially with idle | more
          · exact .unchanged (Watched.pass_of_idle idle)
          · rw [same] at more
            exact absurd more (Nat.lt_irrefl _)
      · next different =>
          rcases fold_grows kept grows initially with idle | more
          · exact absurd (fold_idle idle) different
          · refine .changed (Watched.pass_of_change different) (ih (fold_keeps kept initially) ?_)
            omega

/-- A state that the next pass leaves as it is, is where the passes settle at the latest. -/
theorem settle_passes_le_of_fixed {pass : σ → σ} {count : Nat} {state : σ}
    (fixed : pass (pass^[count] state) = pass^[count] state) (fuel : Nat) :
    (settle pass fuel state).2 ≤ count + 1 := by
  induction count generalizing fuel state with
  | zero =>
      cases fuel with
      | zero => exact Nat.zero_le 1
      | succ fuel =>
          have same : pass state = state := fixed
          simp [settle, same]
  | succ count ih =>
      cases fuel with
      | zero => exact Nat.zero_le _
      | succ fuel =>
          simp only [settle]
          split
          · exact Nat.succ_le_succ (Nat.zero_le _)
          · exact Nat.succ_le_succ (ih fixed fuel)

end Bounded

section Facts

variable {σ ι φ : Type}

/-- A step that keeps all facts, and adds to them by the facts that hold before it. -/
structure Gathers (step : σ → σ) (Invariant : σ → Prop) (holds : σ → φ → Prop) : Prop where
  kept : ∀ state, Invariant state → Invariant (step state)
  adds : ∀ state, Invariant state → ∀ fact, holds state fact → holds (step state) fact
  monotone : ∀ less more, Invariant less → Invariant more →
    (∀ fact, holds less fact → holds more fact) →
      ∀ fact, holds (step less) fact → holds (step more) fact

namespace Gathers

variable {Invariant : σ → Prop} {holds : σ → φ → Prop}

theorem fold {learn : σ → ι → σ} {items : List ι}
    (each : ∀ item ∈ items, Gathers (learn · item) Invariant holds) :
    Gathers (items.foldl learn ·) Invariant holds := by
  induction items with
  | nil => exact ⟨fun _ initially => initially, fun _ _ _ present => present,
      fun _ _ _ _ included => included⟩
  | cons item rest ih =>
      have head := each item List.mem_cons_self
      have tail := ih fun other member => each other (List.mem_cons_of_mem item member)
      constructor
      · intro state initially
        exact tail.kept _ (head.kept state initially)
      · intro state initially fact present
        exact tail.adds _ (head.kept state initially) fact (head.adds state initially fact present)
      · intro less more lessHolds moreHolds included
        exact tail.monotone _ _ (head.kept less lessHolds) (head.kept more moreHolds)
          (head.monotone less more lessHolds moreHolds included)

section Passes

variable {pass : σ → σ} (gathers : Gathers pass Invariant holds) {state : σ}
  (initially : Invariant state)

include gathers initially

theorem reached (later : Nat) : Invariant (pass^[later] state) :=
  Function.Iterate.rec Invariant initially gathers.kept later

theorem lasting (later : Nat) : ∀ fact, holds state fact → holds (pass^[later] state) fact := by
  intro fact present
  induction later with
  | zero => exact present
  | succ later ih =>
      rw [Function.iterate_succ_apply']
      exact gathers.adds _ (gathers.reached initially later) fact ih

theorem nothing_later (nothing : ∀ fact, holds (pass state) fact → holds state fact)
    (later : Nat) : ∀ fact, holds (pass^[later] state) fact → holds state fact := by
  induction later with
  | zero => exact fun _ present => present
  | succ later ih =>
      intro fact present
      rw [Function.iterate_succ_apply'] at present
      have again := gathers.monotone _ _ (gathers.reached initially later) initially ih
      exact nothing fact (again fact present)

variable {possible : Finset φ}
  (within : ∀ state, Invariant state → ∀ fact, holds state fact → fact ∈ possible)

include within

/-- Each pass adds one of the facts that are pending, or no pass after it adds any. -/
theorem added_within [DecidableEq φ] {bound : Nat} {pending : Finset φ}
    (rest : ∀ fact ∈ possible, holds state fact ∨ fact ∈ pending) (few : pending.card ≤ bound)
    (later : Nat) :
    ∀ fact, holds (pass^[later] state) fact → holds (pass^[bound] state) fact := by
  induction bound generalizing state pending later with
  | zero =>
      obtain rfl := Finset.card_eq_zero.1 (Nat.le_zero.1 few)
      intro fact present
      have listed := within _ (gathers.reached initially later) fact present
      exact (rest fact listed).resolve_right (Finset.notMem_empty fact)
  | succ bound ih =>
      by_cases nothing : ∀ fact, holds (pass state) fact → holds state fact
      · intro fact present
        exact gathers.lasting initially (bound + 1) fact
          (gathers.nothing_later initially nothing later fact present)
      · push Not at nothing
        obtain ⟨added, now, before⟩ := nothing
        have next := gathers.kept state initially
        have pends : added ∈ pending := (rest added (within _ next added now)).resolve_left before
        have fewer : (pending.erase added).card ≤ bound := by
          rw [Finset.card_erase_of_mem pends]
          omega
        have remaining : ∀ fact ∈ possible,
            holds (pass state) fact ∨ fact ∈ pending.erase added := by
          intro fact listed
          by_cases same : fact = added
          · exact Or.inl (same ▸ now)
          · rcases rest fact listed with earlier | still
            · exact Or.inl (gathers.adds state initially fact earlier)
            · exact Or.inr (Finset.mem_erase.2 ⟨same, still⟩)
        intro fact present
        have further : holds (pass^[later] (pass state)) fact := by
          rw [← Function.iterate_succ_apply, Function.iterate_succ_apply']
          exact gathers.adds _ (gathers.reached initially later) fact present
        exact ih next remaining fewer later fact further

theorem complete [DecidableEq φ] (fact : φ) :
    holds (pass (pass^[possible.card] state)) fact ↔ holds (pass^[possible.card] state) fact := by
  constructor
  · intro present
    rw [← Function.iterate_succ_apply' pass] at present
    exact gathers.added_within initially within (fun _ listed => Or.inr listed) (Nat.le_refl _) _
      fact present
  · exact gathers.adds _ (gathers.reached initially _) fact

end Passes

end Gathers

/-- Where a state is told by the facts of some views, and each view has only these facts, the passes
are at most one more than the facts. -/
theorem settle_passes_le_of_views [DecidableEq σ] [DecidableEq φ] {ω : Type} [Inhabited ω]
    {pass : σ → σ} {Invariant : σ → Prop} {holds : ω → σ → φ → Prop} {possible : Finset φ}
    (gathers : ∀ view, Gathers pass Invariant (holds view))
    (within : ∀ view state, Invariant state → ∀ fact, holds view state fact → fact ∈ possible)
    (told : ∀ left right, Invariant left → Invariant right →
      (∀ view fact, holds view left fact ↔ holds view right fact) → left = right)
    {state : σ} (initially : Invariant state) (fuel : Nat) :
    (settle pass fuel state).2 ≤ possible.card + 1 := by
  have reached := (gathers default).reached initially possible.card
  apply settle_passes_le_of_fixed
  apply told _ _ ((gathers default).kept _ reached) reached
  intro view fact
  exact (gathers view).complete initially (within view) fact

end Facts

end GrammarKit
