/-!
# Places in a table

Tables of a grammar are addressed by integers. A nonnegative index counts from the front, a
negative one from the end, so `-1` is the last entry. Every other index names no place.
-/

namespace GrammarKit

set_option autoImplicit false

/-- The place that `index` names in a table of `size` entries. -/
def slot? (size : Nat) (index : Int) : Option Nat :=
  if 0 ≤ index then
    if index < size then some index.toNat else none
  else if 0 ≤ index + size then some (index + size).toNat else none

theorem slot_lt {size place : Nat} {index : Int} (named : slot? size index = some place) :
    place < size := by
  unfold slot? at named
  split at named
  · split at named
    · cases named
      omega
    · cases named
  · split at named
    · cases named
      omega
    · cases named

theorem slot_of_nat {size place : Nat} (inside : place < size) :
    slot? size (place : Int) = some place := by
  unfold slot?
  rw [if_pos (by omega), if_pos (by omega)]
  simp

/-- An index from `-size` to `size - 1` names a place, and no other index does. -/
theorem slot_is_some_iff {size : Nat} {index : Int} :
    (slot? size index).isSome ↔ -(size : Int) ≤ index ∧ index < size := by
  unfold slot?
  split
  · split <;> simp <;> omega
  · split <;> simp <;> omega

section Tables

variable {α : Type}

/-- The entry that `index` names. -/
def item? (table : List α) (index : Int) : Option α :=
  (slot? table.length index).bind (table[·]?)

/-- Changes the entry that `index` names and leaves the table alone when there is none. -/
def amend (table : List α) (index : Int) (change : α → α) : List α :=
  match slot? table.length index with
  | some place => table.modify place change
  | none => table

@[simp]
theorem length_amend (table : List α) (index : Int) (change : α → α) :
    (amend table index change).length = table.length := by
  unfold amend
  split <;> simp

theorem item_of_nat {table : List α} {place : Nat} (inside : place < table.length) :
    item? table (place : Int) = some table[place] := by
  simp [item?, slot_of_nat inside, inside]

/-- Two indices that name one place see the change alike. -/
theorem item_amend_same {table : List α} {index other : Int} {change : α → α}
    (same : slot? table.length other = slot? table.length index) :
    item? (amend table index change) other = (item? table index).map change := by
  unfold item?
  rw [length_amend, same]
  unfold amend
  cases named : slot? table.length index with
  | none => simp
  | some place => simp [List.getElem?_modify]

theorem item_amend_other {table : List α} {index other : Int} {change : α → α}
    (differ : slot? table.length other ≠ slot? table.length index) :
    item? (amend table index change) other = item? table other := by
  unfold item?
  rw [length_amend]
  unfold amend
  cases named : slot? table.length index with
  | none => rfl
  | some place =>
      cases wanted : slot? table.length other with
      | none => rfl
      | some spot =>
          have apart : place ≠ spot := by
            intro equal
            exact differ (by rw [wanted, named, equal])
          simp [List.getElem?_modify, apart]

end Tables

end GrammarKit
