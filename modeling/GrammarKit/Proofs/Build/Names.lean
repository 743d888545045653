import GrammarKit.Grammar.Build
import Mathlib.Data.List.Induction
import Mathlib.Data.List.Nodup

/-!
# Names that are told apart

Names that were declared are kept once each, in the order in which they come up first. Among symbols
whose names differ, each is found under its name.
-/

namespace GrammarKit

set_option autoImplicit false

section Once

/-- The names of a list in order of first occurrence, each of them once. -/
structure ListsOnce (mentioned names : List String) : Prop where
  same : ∀ name, name ∈ names ↔ name ∈ mentioned
  ordered : names.Pairwise fun earlier later => mentioned.idxOf earlier < mentioned.idxOf later

theorem ListsOnce.nodup {mentioned names : List String} (listed : ListsOnce mentioned names) :
    names.Nodup := by
  apply listed.ordered.imp
  intro earlier later before equal
  rw [equal] at before
  exact Nat.lt_irrefl _ before

theorem erase_dups_append_one {α : Type} [DecidableEq α] (items : List α) (last : α) :
    (items ++ [last]).eraseDups =
      if last ∈ items then items.eraseDups else items.eraseDups ++ [last] := by
  rw [List.eraseDups_append]
  by_cases known : last ∈ items
  · simp [List.removeAll, known]
  · simp [List.removeAll, known, List.eraseDups_cons]

theorem distinct_append_one (names : List String) (name : String) :
    distinct (names ++ [name]) =
      if name ∈ names then distinct names else distinct names ++ [name] :=
  erase_dups_append_one names name

theorem distinct_lists_once (mentioned : List String) :
    ListsOnce mentioned (distinct mentioned) := by
  constructor
  · intro name
    exact List.mem_eraseDups
  · induction mentioned using List.reverseRecOn with
    | nil => exact List.Pairwise.nil
    | append_singleton names last ih =>
        have places : ∀ name ∈ names, (names ++ [last]).idxOf name = names.idxOf name :=
          fun name member => List.idxOf_append_of_mem member
        have inside : ∀ name ∈ distinct names, name ∈ names :=
          fun name member => List.mem_eraseDups.1 member
        have earlier : (distinct names).Pairwise fun left right =>
            (names ++ [last]).idxOf left < (names ++ [last]).idxOf right := by
          apply ih.imp_of_mem
          intro left right leftMember rightMember before
          rw [places left (inside left leftMember), places right (inside right rightMember)]
          exact before
        rw [distinct_append_one]
        by_cases known : last ∈ names
        · rw [if_pos known]
          exact earlier
        · rw [if_neg known]
          apply List.pairwise_append.2
          refine ⟨earlier, by simp, ?_⟩
          intro name member other final
          obtain rfl := List.mem_singleton.1 final
          rw [places name (inside name member), List.idxOf_append_of_notMem known]
          have place := List.idxOf_lt_length_of_mem (inside name member)
          omega

theorem found_by_name {symbols : List Symbol} (apart : (symbols.map (·.name)).Nodup)
    {symbol : Symbol} (member : symbol ∈ symbols) :
    (symbols.find? fun known => known.name = symbol.name) = some symbol := by
  have present : (symbols.find? fun known => known.name = symbol.name).isSome := by
    rw [List.find?_isSome]
    exact ⟨symbol, member, by simp⟩
  obtain ⟨found, lookup⟩ := Option.isSome_iff_exists.1 present
  have named : found.name = symbol.name := by simpa using List.find?_some lookup
  have same := List.inj_on_of_nodup_map apart (List.mem_of_find?_eq_some lookup) member named
  rw [lookup, same]

theorem erase_dups_map {α β : Type} [DecidableEq α] [DecidableEq β] {change : α → β}
    {items : List α}
    (apart : ∀ left ∈ items, ∀ right ∈ items, change left = change right → left = right) :
    (items.map change).eraseDups = items.eraseDups.map change := by
  induction items using List.reverseRecOn with
  | nil => rfl
  | append_singleton front last ih =>
      have earlier := ih fun left leftMember right rightMember =>
        apart left (by simp [leftMember]) right (by simp [rightMember])
      have same : change last ∈ front.map change ↔ last ∈ front := by
        constructor
        · intro changed
          obtain ⟨other, member, equal⟩ := List.mem_map.1 changed
          exact apart other (by simp [member]) last (by simp) equal ▸ member
        · exact List.mem_map_of_mem
      rw [List.map_append, List.map_singleton, erase_dups_append_one, erase_dups_append_one,
        earlier]
      by_cases known : last ∈ front
      · rw [if_pos (same.2 known), if_pos known]
      · rw [if_neg (fun changed => known (same.1 changed)), if_neg known, List.map_append,
          List.map_singleton]

theorem repeated_none_iff {seen names : List String} :
    repeated? seen names = none ↔ names.Nodup ∧ ∀ name ∈ names, name ∉ seen := by
  induction names generalizing seen with
  | nil => simp [repeated?]
  | cons name rest ih =>
      rw [repeated?]
      by_cases known : name ∈ seen
      · simp [known]
      · rw [if_neg known, ih, List.nodup_cons]
        simp only [List.mem_cons, not_or, forall_eq_or_imp]
        constructor
        · intro later
          rcases later with ⟨apart, unseen⟩
          refine ⟨⟨?_, apart⟩, known, fun other member => (unseen other member).2⟩
          intro again
          exact (unseen name again).1 rfl
        · intro all
          rcases all with ⟨⟨fresh, apart⟩, _, unseen⟩
          refine ⟨apart, fun other member => ⟨?_, unseen other member⟩⟩
          intro equal
          exact fresh (equal ▸ member)

end Once

end GrammarKit
