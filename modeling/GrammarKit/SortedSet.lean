/-!
# Finite sets in ascending order

A finite set is kept as its members in strictly ascending order. Two sets with the same members
are therefore equal, and a listing of a set never depends on how the set was put together.
-/

namespace GrammarKit

set_option autoImplicit false

structure SortedSet (α : Type) [LT α] where
  toList : List α
  ascending : toList.Pairwise (· < ·)
deriving DecidableEq

abbrev IndexSet := SortedSet Int

/-- Sets of names, ascending by code point. -/
abbrev NameSet := SortedSet String

namespace SortedSet

section Order

variable {α : Type} [LT α]

instance : Membership α (SortedSet α) where
  mem members item := item ∈ members.toList

instance [DecidableEq α] (item : α) (members : SortedSet α) : Decidable (item ∈ members) :=
  inferInstanceAs (Decidable (item ∈ members.toList))

instance : EmptyCollection (SortedSet α) where
  emptyCollection := ⟨[], List.Pairwise.nil⟩

instance : Inhabited (SortedSet α) where
  default := ∅

def size (members : SortedSet α) : Nat := members.toList.length

@[simp]
theorem mem_to_list {item : α} {members : SortedSet α} :
    item ∈ members.toList ↔ item ∈ members := Iff.rfl

@[simp]
theorem not_mem_empty (item : α) : item ∉ (∅ : SortedSet α) := List.not_mem_nil

def filter (keep : α → Bool) (members : SortedSet α) : SortedSet α :=
  ⟨members.toList.filter keep, members.ascending.filter keep⟩

@[simp]
theorem mem_filter {keep : α → Bool} {item : α} {members : SortedSet α} :
    item ∈ members.filter keep ↔ item ∈ members ∧ keep item = true := List.mem_filter

def without [DecidableEq α] (left right : SortedSet α) : SortedSet α :=
  left.filter fun item => decide (item ∉ right)

@[simp]
theorem mem_without [DecidableEq α] {item : α} {left right : SortedSet α} :
    item ∈ left.without right ↔ item ∈ left ∧ item ∉ right := by
  simp [without]

end Order

section Place

variable {α : Type} [LT α] [DecidableEq α] [DecidableLT α]

def place (item : α) : List α → List α
  | [] => [item]
  | first :: rest =>
      if item < first then item :: first :: rest
      else if item = first then first :: rest
      else first :: place item rest

theorem mem_place {item other : α} {members : List α} :
    other ∈ place item members ↔ other = item ∨ other ∈ members := by
  induction members with
  | nil => simp [place]
  | cons first rest ih =>
      unfold place
      split
      · simp
      · split
        · rename_i equal
          subst equal
          simp
        · simp only [List.mem_cons, ih]
          constructor
          · rintro (h | h | h) <;> simp [h]
          · rintro (h | h | h) <;> simp [h]

end Place

section Linear

variable {α : Type} [LT α] [LE α] [Std.IsLinearOrder α] [Std.LawfulOrderLT α]

/-- Membership determines a set. -/
theorem eq_of_same_members {left right : SortedSet α}
    (same : ∀ item, item ∈ left ↔ item ∈ right) : left = right := by
  obtain ⟨items, sorted⟩ := left
  obtain ⟨others, otherSorted⟩ := right
  congr 1
  change ∀ item, item ∈ items ↔ item ∈ others at same
  induction items generalizing others with
  | nil =>
      cases others with
      | nil => rfl
      | cons first rest => exact absurd ((same first).2 (by simp)) (by simp)
  | cons first rest ih =>
      cases others with
      | nil => exact absurd ((same first).1 (by simp)) (by simp)
      | cons head tail =>
          have here := List.pairwise_cons.1 sorted
          have there := List.pairwise_cons.1 otherSorted
          have heads : first = head := by
            rcases List.mem_cons.1 ((same first).1 (by simp)) with equal | later
            · exact equal
            rcases List.mem_cons.1 ((same head).2 (by simp)) with equal | earlier
            · exact equal.symm
            · exact absurd (Std.lt_trans (there.1 first later) (here.1 head earlier)) Std.lt_irrefl
          subst heads
          refine congrArg _ (ih here.2 tail there.2 ?_)
          intro item
          have both := same item
          simp only [List.mem_cons] at both
          constructor
          · intro member
            rcases both.1 (Or.inr member) with rfl | found
            · exact absurd (here.1 item member) Std.lt_irrefl
            · exact found
          · intro member
            rcases both.2 (Or.inr member) with rfl | found
            · exact absurd (there.1 item member) Std.lt_irrefl
            · exact found

variable [DecidableEq α] [DecidableLT α]

theorem place_ascending {item : α} {members : List α} (sorted : members.Pairwise (· < ·)) :
    (place item members).Pairwise (· < ·) := by
  induction members with
  | nil => simp [place]
  | cons first rest ih =>
      have split_sorted := List.pairwise_cons.1 sorted
      unfold place
      split
      · rename_i before
        refine List.pairwise_cons.2 ⟨?_, sorted⟩
        intro other member
        rcases List.mem_cons.1 member with rfl | later
        · exact before
        · exact Std.lt_trans before (split_sorted.1 other later)
      · split
        · exact sorted
        · rename_i notBefore notEqual
          have after : first < item :=
            (Std.lt_trichotomy item first).elim (fun h => absurd h notBefore)
              (fun h => h.elim (fun h => absurd h notEqual) id)
          refine List.pairwise_cons.2 ⟨?_, ih split_sorted.2⟩
          intro other member
          rcases mem_place.1 member with rfl | later
          · exact after
          · exact split_sorted.1 other later

def insert (item : α) (members : SortedSet α) : SortedSet α :=
  ⟨place item members.toList, place_ascending members.ascending⟩

@[simp]
theorem mem_insert {item other : α} {members : SortedSet α} :
    other ∈ members.insert item ↔ other = item ∨ other ∈ members := mem_place

def insertAll (members : SortedSet α) (items : List α) : SortedSet α :=
  items.foldl (fun gathered item => gathered.insert item) members

@[simp]
theorem mem_insert_all {other : α} {members : SortedSet α} {items : List α} :
    other ∈ members.insertAll items ↔ other ∈ members ∨ other ∈ items := by
  induction items generalizing members with
  | nil => simp [insertAll]
  | cons item rest ih =>
      have unfolded : members.insertAll (item :: rest) = (members.insert item).insertAll rest := rfl
      rw [unfolded, ih, mem_insert, List.mem_cons]
      constructor
      · rintro ((h | h) | h) <;> simp [h]
      · rintro (h | h | h) <;> simp [h]

def ofList (items : List α) : SortedSet α := insertAll ∅ items

@[simp]
theorem mem_of_list {item : α} {items : List α} : item ∈ ofList items ↔ item ∈ items := by
  simp [ofList]

def singleton (item : α) : SortedSet α := insert item ∅

@[simp]
theorem mem_singleton {item other : α} : other ∈ singleton item ↔ other = item := by
  simp [singleton]

instance : Union (SortedSet α) where
  union left right := left.insertAll right.toList

@[simp]
theorem mem_union {item : α} {left right : SortedSet α} :
    item ∈ left ∪ right ↔ item ∈ left ∨ item ∈ right := mem_insert_all

end Linear

end SortedSet

end GrammarKit
