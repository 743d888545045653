import GrammarKit.Register
import Mathlib.Data.List.Find
import Mathlib.Data.List.Nodup

/-!
# Keys and entries of registers

A register that is filled from a list of pairs has the keys of the pairs. Where no key comes twice
the entries are the pairs themselves, in their order.
-/

namespace GrammarKit

set_option autoImplicit false

namespace Register

variable {κ ν : Type} [DecidableEq κ]

theorem contains_iff {register : Register κ ν} {key : κ} :
    register.contains key ↔ key ∈ register.keys := by
  unfold contains find? keys
  rw [Option.isSome_map, List.find?_isSome, List.mem_map]
  simp only [decide_eq_true_eq]

theorem find_eq_some_iff {register : Register κ ν} {key : κ} {value : ν} :
    register.find? key = some value ↔ (key, value) ∈ register.entries := by
  unfold find?
  rw [Option.map_eq_some_iff]
  constructor
  · rintro ⟨entry, found, rfl⟩
    have same : entry.1 = key := by simpa using List.find?_some found
    exact same ▸ List.mem_of_find?_eq_some found
  · intro listed
    have known : (register.entries.find? fun entry => entry.1 = key).isSome :=
      List.find?_isSome.2 ⟨_, listed, by simp⟩
    obtain ⟨entry, found⟩ := Option.isSome_iff_exists.1 known
    have same : entry.1 = key := by simpa using List.find?_some found
    have equal : entry = (key, value) := List.inj_on_of_nodup_map register.once
      (List.mem_of_find?_eq_some found) listed same
    exact ⟨entry, found, congrArg Prod.snd equal⟩

theorem mem_overwrite {entries : List (κ × ν)} {key other : κ} {value found : ν}
    (known : key ∈ entries.map (·.1)) :
    (other, found) ∈ overwrite key value entries ↔
      if other = key then found = value else (other, found) ∈ entries := by
  have overwritten : (other, found) ∈ overwrite key value entries ↔
      ∃ entry ∈ entries, (if entry.1 = key then (entry.1, value) else entry) = (other, found) :=
    List.mem_map
  rw [overwritten]
  split
  · next this =>
      subst this
      obtain ⟨entry, listed, same⟩ := List.mem_map.1 known
      constructor
      · rintro ⟨earlier, _, equal⟩
        split at equal
        · exact (congrArg Prod.snd equal).symm
        · next apart => exact absurd (congrArg Prod.fst equal) apart
      · rintro rfl
        exact ⟨entry, listed, by rw [if_pos same, same]⟩
  · next apart =>
      constructor
      · rintro ⟨earlier, there, equal⟩
        split at equal
        · next here => exact absurd ((congrArg Prod.fst equal).symm.trans here) apart
        · exact equal ▸ there
      · intro there
        exact ⟨_, there, if_neg apart⟩

theorem mem_entries_put {register : Register κ ν} {key other : κ} {value found : ν} :
    (other, found) ∈ (register.put key value).entries ↔
      if other = key then found = value else (other, found) ∈ register.entries := by
  unfold put
  split
  · next known => exact mem_overwrite known
  · next unknown =>
      change (other, found) ∈ register.entries ++ [(key, value)] ↔ _
      rw [List.mem_append, List.mem_singleton, Prod.mk.injEq]
      split
      · next this =>
          subst this
          have absent : (other, found) ∉ register.entries :=
            fun there => unknown (List.mem_map_of_mem there)
          simp [absent]
      · next apart => simp [apart]

theorem find_put (register : Register κ ν) (key other : κ) (value : ν) :
    (register.put key value).find? other =
      if other = key then some value else register.find? other := by
  apply Option.ext
  intro found
  rw [find_eq_some_iff, mem_entries_put]
  split
  · rw [Option.some.injEq, eq_comm]
  · exact find_eq_some_iff.symm

theorem mem_keys_put {register : Register κ ν} {key other : κ} {value : ν} :
    other ∈ (register.put key value).keys ↔ other ∈ register.keys ∨ other = key := by
  rw [keys_put]
  split
  · rename_i known
    constructor
    · exact Or.inl
    · rintro (earlier | rfl)
      · exact earlier
      · exact known
  · simp

theorem mem_keys_put_all {register : Register κ ν} {pairs : List (κ × ν)} {key : κ} :
    key ∈ (pairs.foldl (fun register pair => register.put pair.1 pair.2) register).keys ↔
      key ∈ register.keys ∨ key ∈ pairs.map (·.1) := by
  induction pairs generalizing register with
  | nil => simp
  | cons pair rest ih =>
      rw [List.foldl_cons, ih, mem_keys_put, List.map_cons, List.mem_cons, or_assoc]

theorem mem_keys_of_pairs {pairs : List (κ × ν)} {key : κ} :
    key ∈ (ofPairs pairs).keys ↔ key ∈ pairs.map (·.1) := by
  have listed : key ∈ (ofPairs pairs).keys ↔
      key ∈ (∅ : Register κ ν).keys ∨ key ∈ pairs.map (·.1) := mem_keys_put_all
  have nothing : key ∉ (∅ : Register κ ν).keys := List.not_mem_nil
  rw [or_iff_right nothing] at listed
  exact listed

theorem entries_put_new {register : Register κ ν} {key : κ} (fresh : key ∉ register.keys)
    (value : ν) : (register.put key value).entries = register.entries ++ [(key, value)] := by
  have unknown : key ∉ register.entries.map (·.1) := fresh
  unfold put
  rw [dif_neg unknown]

theorem entries_put_all {register : Register κ ν} {pairs : List (κ × ν)}
    (once : (register.keys ++ pairs.map (·.1)).Nodup) :
    (pairs.foldl (fun register pair => register.put pair.1 pair.2) register).entries =
      register.entries ++ pairs := by
  induction pairs generalizing register with
  | nil => simp
  | cons pair rest ih =>
      have fresh : pair.1 ∉ register.keys := by
        intro known
        exact (List.nodup_append.1 once).2.2 _ known _ List.mem_cons_self rfl
      have keys : (register.put pair.1 pair.2).keys = register.keys ++ [pair.1] := by
        rw [keys_put, if_neg fresh]
      rw [List.foldl_cons, ih, entries_put_new fresh]
      · simp
      · rw [keys]
        simpa using once

theorem entries_of_pairs {pairs : List (κ × ν)} (once : (pairs.map (·.1)).Nodup) :
    (ofPairs pairs).entries = pairs := by
  have entered : (ofPairs pairs).entries = (∅ : Register κ ν).entries ++ pairs :=
    entries_put_all once
  exact entered

section Rekeyed

variable {ι : Type} [DecidableEq ι]

/-- The same values under changed keys. -/
def rekeyed (register : Register κ ν) (change : κ → ι) : Register ι ν :=
  ofPairs (register.entries.map fun entry => (change entry.1, entry.2))

variable {register : Register κ ν} {change : κ → ι}

omit [DecidableEq κ] in
theorem entries_rekeyed (apart : ∀ left ∈ register.keys, ∀ right ∈ register.keys,
      change left = change right → left = right) :
    (register.rekeyed change).entries =
      register.entries.map fun entry => (change entry.1, entry.2) := by
  have once : ((register.entries.map fun entry => (change entry.1, entry.2)).map (·.1)).Nodup := by
    have keys : (register.keys.map change).Nodup :=
      List.Nodup.map_on (fun left leftMember right rightMember =>
        apart left leftMember right rightMember) register.once
    unfold Register.keys at keys
    rw [List.map_map] at keys ⊢
    exact keys
  exact entries_of_pairs once

theorem find_rekeyed {key : κ} (apart : ∀ left ∈ key :: register.keys,
      ∀ right ∈ key :: register.keys, change left = change right → left = right) :
    (register.rekeyed change).find? (change key) = register.find? key := by
  have same : ∀ entry ∈ register.entries,
      decide (change entry.1 = change key) = decide (entry.1 = key) := by
    intro entry member
    have known : entry.1 ∈ register.keys := List.mem_map_of_mem member
    rw [decide_eq_decide]
    constructor
    · exact apart _ (List.mem_cons_of_mem _ known) _ List.mem_cons_self
    · exact congrArg change
  unfold find?
  rw [entries_rekeyed (fun left leftMember right rightMember =>
    apart left (List.mem_cons_of_mem _ leftMember) right (List.mem_cons_of_mem _ rightMember)),
    List.find?_map, Option.map_map]
  change (register.entries.find? fun entry => decide (change entry.1 = change key)).map _ = _
  rw [List.find?_congr same]
  rfl

end Rekeyed

end Register

end GrammarKit
