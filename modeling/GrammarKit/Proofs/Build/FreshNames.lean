import GrammarKit.Grammar.FreshName
import Mathlib.Data.Finset.Card

/-!
# The search for a fresh name

A search appends apostrophes until it meets a name that is not in use, and knows no bound. The
candidates grow longer, so each name in use that the search leaves behind is never met again, and
those still ahead become fewer with every round. Hence the search ends, wherever it starts and
whatever is in use. The attempts that a fresh name is given cover all rounds, and the name it
settles on is the one that the search ends with: the shortest candidate that is not in use.
-/

namespace GrammarKit

set_option autoImplicit false

section Candidates

/-- The base name with some apostrophes behind it. -/
def primed (base : String) : Nat → String
  | 0 => base
  | count + 1 => primed (base ++ "'") count

theorem to_list_primed (base : String) (count : Nat) :
    (primed base count).toList = base.toList ++ List.replicate count '\'' := by
  induction count generalizing base with
  | zero => simp [primed]
  | succ count ih =>
      rw [primed, ih, String.toList_append, List.append_assoc, List.replicate_succ]
      rfl

theorem length_primed (base : String) (count : Nat) :
    (primed base count).length = base.length + count := by
  have characters := congrArg List.length (to_list_primed base count)
  rwa [List.length_append, List.length_replicate, String.length_toList,
    String.length_toList] at characters

end Candidates

/-- One more apostrophe follows upon each name in use. The number counts the apostrophes. -/
inductive SearchEnds (taken : List String) : String → Nat → String → Prop where
  | free {name : String} (free : name ∉ taken) : SearchEnds taken name 0 name
  | used {name final : String} {rounds : Nat} (used : name ∈ taken)
      (later : SearchEnds taken (name ++ "'") rounds final) :
      SearchEnds taken name (rounds + 1) final

/-- The name is the base with as few apostrophes behind it as keep it apart from the names in
use. -/
structure ShortestFree (taken : List String) (base : String) (count : Nat) (name : String) :
    Prop where
  spelled : name = primed base count
  free : name ∉ taken
  shorter_taken : ∀ fewer < count, primed base fewer ∈ taken

theorem ShortestFree.congr {taken others : List String} {base name : String} {count : Nat}
    (shortest : ShortestFree taken base count name)
    (same : ∀ other, other ∈ taken ↔ other ∈ others) : ShortestFree others base count name where
  spelled := shortest.spelled
  free := fun used => shortest.free ((same name).2 used)
  shorter_taken := fun fewer below => (same _).1 (shortest.shorter_taken fewer below)

namespace SearchEnds

variable {taken : List String} {base final : String} {rounds : Nat}

theorem unique {others : Nat} {other : String} (first : SearchEnds taken base rounds final)
    (second : SearchEnds taken base others other) : others = rounds ∧ other = final := by
  induction first generalizing others other with
  | free free =>
      cases second with
      | free _ => exact ⟨rfl, rfl⟩
      | used again _ => exact absurd again free
  | used used _ ih =>
      cases second with
      | free again => exact absurd used again
      | used _ later =>
          obtain ⟨rfl, rfl⟩ := ih later
          exact ⟨rfl, rfl⟩

theorem only (ends : SearchEnds taken base rounds final) {others : Nat} {other : String} :
    SearchEnds taken base others other ↔ others = rounds ∧ other = final := by
  constructor
  · exact ends.unique
  · intro same
    obtain ⟨rfl, rfl⟩ := same
    exact ends

theorem shortest (ends : SearchEnds taken base rounds final) :
    ShortestFree taken base rounds final := by
  induction ends with
  | free free => exact ⟨rfl, free, by simp⟩
  | used used _ ih =>
      refine ⟨ih.spelled, ih.free, ?_⟩
      intro fewer below
      cases fewer with
      | zero => exact used
      | succ fewer => exact ih.shorter_taken fewer (by omega)

theorem prime_until_free {attempts : Nat} (ends : SearchEnds taken base rounds final)
    (enough : rounds ≤ attempts) : primeUntilFree taken attempts base = final := by
  induction ends generalizing attempts with
  | free free =>
      cases attempts with
      | zero => rfl
      | succ attempts => rw [primeUntilFree, if_neg free]
  | used used _ ih =>
      cases attempts with
      | zero => omega
      | succ attempts =>
          rw [primeUntilFree, if_pos used]
          exact ih (by omega)

end SearchEnds

section Ahead

variable {taken : List String} {name : String}

open Classical in
/-- The names in use that a search may still meet. -/
noncomputable def takenAhead (taken : List String) (name : String) : Finset String :=
  taken.toFinset.filter fun other => ∃ count, other = primed name count

theorem mem_taken_ahead_iff {other : String} :
    other ∈ takenAhead taken name ↔ other ∈ taken ∧ ∃ count, other = primed name count := by
  simp [takenAhead]

/-- A name in use that the search leaves behind is not met again. -/
theorem taken_ahead_shrinks (used : name ∈ taken) :
    (takenAhead taken (name ++ "'")).card < (takenAhead taken name).card := by
  have met : name ∈ takenAhead taken name := mem_taken_ahead_iff.2 ⟨used, 0, rfl⟩
  have passed : name ∉ takenAhead taken (name ++ "'") := by
    intro again
    obtain ⟨_, count, same⟩ := mem_taken_ahead_iff.1 again
    have lengths := congrArg String.length same
    change name.length = (primed name (count + 1)).length at lengths
    rw [length_primed] at lengths
    omega
  apply Finset.card_lt_card
  rw [Finset.ssubset_iff_of_subset]
  · exact ⟨name, met, passed⟩
  · intro other later
    obtain ⟨among, count, same⟩ := mem_taken_ahead_iff.1 later
    exact mem_taken_ahead_iff.2 ⟨among, count + 1, same⟩

theorem search_ends (taken : List String) (name : String) :
    ∃ rounds ≤ (takenAhead taken name).card, ∃ final, SearchEnds taken name rounds final := by
  induction size : (takenAhead taken name).card using Nat.strong_induction_on
    generalizing name with
  | _ _ ih =>
      by_cases used : name ∈ taken
      · have fewer := taken_ahead_shrinks used
        obtain ⟨rounds, bounded, final, ends⟩ := ih _ (by omega) (name ++ "'") rfl
        exact ⟨rounds + 1, by omega, final, .used used ends⟩
      · exact ⟨0, Nat.zero_le _, name, .free used⟩

theorem card_taken_ahead_le (taken : List String) (name : String) :
    (takenAhead taken name).card ≤ taken.length := by
  have inside : takenAhead taken name ⊆ taken.toFinset := fun _ met =>
    List.mem_toFinset.2 (mem_taken_ahead_iff.1 met).1
  exact (Finset.card_le_card inside).trans (List.toFinset_card_le taken)

end Ahead

theorem fresh_name_found (taken : List String) (base : String) :
    ∃ count ≤ (takenAhead taken base).card, SearchEnds taken base count (freshName taken base) := by
  obtain ⟨count, bounded, final, ends⟩ := search_ends taken base
  have enough := bounded.trans (card_taken_ahead_le taken base)
  have same : freshName taken base = final := ends.prime_until_free enough
  exact ⟨count, bounded, same ▸ ends⟩

theorem fresh_name_is_least (taken : List String) (base : String) :
    ∃ count, ShortestFree taken base count (freshName taken base) := by
  obtain ⟨count, _, ends⟩ := fresh_name_found taken base
  exact ⟨count, ends.shortest⟩

theorem fresh_name_not_taken (taken : List String) (base : String) :
    freshName taken base ∉ taken := by
  obtain ⟨_, shortest⟩ := fresh_name_is_least taken base
  exact shortest.free

end GrammarKit
