import GrammarKit.Settle
import GrammarKit.Slot
import GrammarKit.SortedSet
import Mathlib.Algebra.Ring.Nat
import Mathlib.Data.List.Perm.Subperm

/-!
# Passes that only add

The analyses learn from one production after the other and never forget. Each step leaves the state
alone or raises a rank, and the rank is bounded. So the state in which the passes settle is left
alone by every single step, which is what completeness of an analysis rests on.
-/

namespace GrammarKit

set_option autoImplicit false

section Sizes

namespace SortedSet

variable {α : Type} [LT α] [LE α] [Std.LawfulOrderLT α]

theorem to_list_nodup (members : SortedSet α) : members.toList.Nodup := by
  apply members.ascending.imp
  intro left right before equal
  subst equal
  exact Std.lt_irrefl before

theorem size_le_of_covered {members : SortedSet α} {items : List α}
    (covered : ∀ item ∈ members, item ∈ items) : members.size ≤ items.length :=
  ((to_list_nodup members).subperm covered).length_le

theorem eq_or_size_lt [Std.IsLinearOrder α] {small large : SortedSet α}
    (included : ∀ item ∈ small, item ∈ large) : large = small ∨ small.size < large.size := by
  by_cases same : ∀ item ∈ large, item ∈ small
  · left
    apply eq_of_same_members
    intro item
    exact ⟨same item, included item⟩
  · right
    push Not at same
    obtain ⟨item, present, absent⟩ := same
    have apart : (item :: small.toList).Nodup :=
      List.nodup_cons.2 ⟨absent, to_list_nodup small⟩
    have covered : item :: small.toList ⊆ large.toList := by
      intro other member
      rcases List.mem_cons.1 member with rfl | earlier
      · exact present
      · exact included other earlier
    exact (apart.subperm covered).length_le

end SortedSet

theorem amend_grows {α : Type} {rank : α → Nat} {change : α → α}
    (grows : ∀ entry, change entry = entry ∨ rank entry < rank (change entry))
    (table : List α) (index : Int) :
    amend table index change = table ∨
      (table.map rank).sum < ((amend table index change).map rank).sum := by
  unfold amend
  cases slot? table.length index with
  | none => exact Or.inl rfl
  | some place =>
      change table.modify place change = table ∨ _
      induction table generalizing place with
      | nil => simp
      | cons first rest ih =>
          cases place with
          | zero =>
              rcases grows first with same | more
              · left
                simp [List.modify, same]
              · right
                simpa [List.modify] using more
          | succ place =>
              rcases ih place with same | more
              · left
                simp [same]
              · right
                simpa using more

theorem mem_amend {α : Type} {change : α → α} {table : List α} {index : Int} {entry : α}
    (member : entry ∈ amend table index change) :
    entry ∈ table ∨ ∃ earlier ∈ table, entry = change earlier := by
  unfold amend at member
  cases named : slot? table.length index with
  | none =>
      rw [named] at member
      exact Or.inl member
  | some place =>
      rw [named] at member
      obtain ⟨position, inside, rfl⟩ := List.getElem_of_mem member
      rw [List.getElem_modify]
      split
      · exact Or.inr ⟨_, List.getElem_mem _, rfl⟩
      · exact Or.inl (List.getElem_mem _)

theorem sum_of_ranks_le {α : Type} {rank : α → Nat} {bound : Nat} {table : List α}
    (bounded : ∀ entry ∈ table, rank entry ≤ bound) :
    (table.map rank).sum ≤ table.length * bound := by
  induction table with
  | nil => simp
  | cons first rest ih =>
      have head := bounded first (by simp)
      have tail := ih (fun entry member => bounded entry (by simp [member]))
      simp only [List.map_cons, List.sum_cons, List.length_cons, Nat.add_mul, Nat.one_mul]
      omega

end Sizes

section Folding

variable {σ ι : Type} {learn : σ → ι → σ} {rank : σ → Nat} {Invariant : σ → Prop}

theorem fold_keeps {motive : σ → Prop} {items : List ι}
    (kept : ∀ item ∈ items, ∀ state, motive state → motive (learn state item))
    {state : σ} (initially : motive state) : motive (items.foldl learn state) := by
  induction items generalizing state with
  | nil => exact initially
  | cons item rest ih =>
      apply ih fun other member => kept other (by simp [member])
      exact kept item (by simp) state initially

theorem fold_idle {items : List ι} {state : σ} (idle : ∀ item ∈ items, learn state item = state) :
    items.foldl learn state = state := by
  apply fold_keeps (motive := fun final => final = state) _ rfl
  intro item member final equal
  rw [equal]
  exact idle item member

/-- A whole pass changes nothing only if none of its steps does. -/
theorem fold_grows {items : List ι}
    (kept : ∀ item ∈ items, ∀ state, Invariant state → Invariant (learn state item))
    (grows : ∀ item ∈ items, ∀ state, Invariant state →
      learn state item = state ∨ rank state < rank (learn state item))
    {state : σ} (initially : Invariant state) :
    (∀ item ∈ items, learn state item = state) ∨ rank state < rank (items.foldl learn state) := by
  induction items generalizing state with
  | nil => exact Or.inl (by simp)
  | cons item rest ih =>
      have keptLater : ∀ other ∈ rest, ∀ state, Invariant state → Invariant (learn state other) :=
        fun other member => kept other (by simp [member])
      have growsLater : ∀ other ∈ rest, ∀ state, Invariant state →
          learn state other = state ∨ rank state < rank (learn state other) :=
        fun other member => grows other (by simp [member])
      have later := ih keptLater growsLater (kept item (by simp) state initially)
      rw [List.foldl_cons]
      rcases grows item (by simp) state initially with same | more
      · rw [same] at later ⊢
        rcases later with idle | more
        · left
          intro other member
          rcases List.mem_cons.1 member with rfl | among
          · exact same
          · exact idle other among
        · exact Or.inr more
      · right
        rcases later with idle | further
        · rw [fold_idle idle]
          exact more
        · omega

theorem settled_fold_keeps [DecidableEq σ] {items : List ι} {state : σ}
    (kept : ∀ item ∈ items, ∀ state, Invariant state → Invariant (learn state item)) (fuel : Nat)
    (initially : Invariant state) :
    Invariant (settle (fun state => items.foldl learn state) fuel state).1 :=
  settle_keeps (fun _ holds => fold_keeps kept holds) fuel initially

theorem settled_is_closed [DecidableEq σ] {items : List ι} {bound fuel : Nat} {state : σ}
    (kept : ∀ item ∈ items, ∀ state, Invariant state → Invariant (learn state item))
    (grows : ∀ item ∈ items, ∀ state, Invariant state →
      learn state item = state ∨ rank state < rank (learn state item))
    (bounded : ∀ state, Invariant state → rank state ≤ bound)
    (initially : Invariant state) (enough : bound < fuel + rank state) :
    ∀ item ∈ items,
      learn (settle (fun state => items.foldl learn state) fuel state).1 item =
        (settle (fun state => items.foldl learn state) fuel state).1 := by
  have keptByPass : ∀ state, Invariant state → Invariant (items.foldl learn state) :=
    fun _ holds => fold_keeps kept holds
  have raised : ∀ state, Invariant state → items.foldl learn state ≠ state →
      rank state < rank (items.foldl learn state) := by
    intro state holds changed
    rcases fold_grows kept grows holds with idle | more
    · exact absurd (fold_idle idle) changed
    · exact more
  have fixed := settle_is_fixed keptByPass bounded raised initially enough
  have holds := settled_fold_keeps kept fuel initially
  rcases fold_grows kept grows holds with idle | more
  · exact idle
  · rw [fixed] at more
    exact absurd more (Nat.lt_irrefl _)

end Folding

section Unrolling

variable {σ : Type} [DecidableEq σ] {pass : σ → σ} {state : σ}

theorem settle_fixed (same : pass state = state) (fuel : Nat) :
    (settle pass (fuel + 1) state).1 = state := by
  simp [settle, same]

theorem settle_changed (changed : pass state ≠ state) (fuel : Nat) :
    (settle pass (fuel + 1) state).1 = (settle pass fuel (pass state)).1 := by
  simp [settle, changed]

end Unrolling

/-- Passes that use up something, as long as any of it is there, leave nothing of it in the end. -/
theorem settle_exhausts {σ : Type} [DecidableEq σ] {pass : σ → σ} {motive : σ → Prop}
    {lack : σ → Nat} (kept : ∀ state, motive state → motive (pass state))
    (lowered : ∀ state, motive state → lack (pass state) ≤ lack state - 1)
    {fuel : Nat} {state : σ} (initially : motive state) (enough : lack state ≤ fuel) :
    lack (settle pass fuel state).1 = 0 := by
  induction fuel generalizing state with
  | zero => exact Nat.le_zero.1 enough
  | succ fuel ih =>
      have less := lowered state initially
      simp only [settle]
      split
      · rename_i fixed
        change lack state = 0
        rw [fixed] at less
        omega
      · apply ih (kept state initially)
        omega

/-- What each pass carries one step further is carried as far as there are passes, and for good when
a pass changes nothing. -/
theorem settle_climbs {σ : Type} [DecidableEq σ] {pass : σ → σ} {motive : Nat → σ → Prop}
    (climbs : ∀ level state, motive level state → motive (level + 1) (pass state)) (fuel : Nat)
    {level : Nat} {state : σ} (initially : motive level state) :
    motive (level + fuel) (settle pass fuel state).1 := by
  induction fuel generalizing level state with
  | zero => exact initially
  | succ fuel ih =>
      by_cases fixed : pass state = state
      · have lasting : ∀ steps, motive (level + steps) state := by
          intro steps
          induction steps with
          | zero => exact initially
          | succ steps earlier =>
              have further := climbs _ _ earlier
              rwa [fixed] at further
        rw [settle_fixed fixed]
        exact lasting (fuel + 1)
      · rw [settle_changed fixed, Nat.add_comm fuel 1, ← Nat.add_assoc]
        exact ih (climbs level state initially)

end GrammarKit
