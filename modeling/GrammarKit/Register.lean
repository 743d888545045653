/-!
# Registers

A register maps keys to values and remembers the order in which the keys were first entered. A
key that is entered again keeps its place and takes the later value.
-/

namespace GrammarKit

set_option autoImplicit false

structure Register (κ ν : Type) where
  entries : List (κ × ν)
  once : (entries.map (·.1)).Nodup := by simp

namespace Register

variable {κ ν : Type}

instance : EmptyCollection (Register κ ν) where
  emptyCollection := ⟨[], List.nodup_nil⟩

instance : Inhabited (Register κ ν) where
  default := ∅

@[simp]
theorem entries_empty : (∅ : Register κ ν).entries = [] := rfl

def keys (register : Register κ ν) : List κ := register.entries.map (·.1)

def isEmpty (register : Register κ ν) : Bool := register.entries.isEmpty

/-- The entries in ascending order of their keys. -/
def ascending [LT κ] [DecidableLT κ] (register : Register κ ν) : List (κ × ν) :=
  register.entries.mergeSort fun left right => !decide (right.1 < left.1)

section Keys

variable [DecidableEq κ]

def overwrite (key : κ) (value : ν) (entries : List (κ × ν)) : List (κ × ν) :=
  entries.map fun entry => if entry.1 = key then (entry.1, value) else entry

theorem overwrite_keys (key : κ) (value : ν) (entries : List (κ × ν)) :
    (overwrite key value entries).map (·.1) = entries.map (·.1) := by
  unfold overwrite
  rw [List.map_map]
  apply List.map_congr_left
  intro entry _
  simp only [Function.comp]
  split <;> rfl

def put (register : Register κ ν) (key : κ) (value : ν) : Register κ ν :=
  if known : key ∈ register.entries.map (·.1) then
    ⟨overwrite key value register.entries, by
      rw [overwrite_keys]
      exact register.once⟩
  else
    ⟨register.entries ++ [(key, value)], by
      rw [List.map_append]
      refine List.nodup_append.2 ⟨register.once, by simp, ?_⟩
      intro other member last final equal
      subst equal
      rw [List.map_singleton, List.mem_singleton] at final
      obtain rfl : other = key := final
      exact known member⟩

/-- A known key keeps its place and a new one comes last. -/
theorem keys_put (register : Register κ ν) (key : κ) (value : ν) :
    (register.put key value).keys =
      if key ∈ register.keys then register.keys else register.keys ++ [key] := by
  unfold put keys
  by_cases known : key ∈ register.entries.map (·.1)
  · rw [dif_pos known, if_pos known]
    exact overwrite_keys key value register.entries
  · rw [dif_neg known, if_neg known]
    simp

def find? (register : Register κ ν) (key : κ) : Option ν :=
  (register.entries.find? fun entry => entry.1 = key).map (·.2)

def contains (register : Register κ ν) (key : κ) : Bool := (register.find? key).isSome

def ofPairs (pairs : List (κ × ν)) : Register κ ν :=
  pairs.foldl (fun register pair => register.put pair.1 pair.2) ∅

end Keys

end Register

end GrammarKit
