/-!
# The best of a list

Where several productions are possible and none is left to chance, the best one is taken. Of equally
good ones the earliest in the list wins.
-/

namespace GrammarKit

set_option autoImplicit false

/-- The earliest item that no other item is better than, for a strict order `better`. -/
def best? {α : Type} (better : α → α → Bool) : List α → Option α
  | [] => none
  | first :: rest =>
      some (rest.foldl (fun chosen item => if better item chosen then item else chosen) first)

theorem best_of_nonempty {α : Type} {better : α → α → Bool} {items : List α} (nonempty : items ≠ []) :
    (best? better items).isSome := by
  cases items with
  | nil => exact absurd rfl nonempty
  | cons first rest => rfl

theorem best_mem {α : Type} {better : α → α → Bool} {items : List α} {item : α}
    (chosen : best? better items = some item) : item ∈ items := by
  cases items with
  | nil => cases chosen
  | cons first rest =>
      cases chosen
      suffices kept : ∀ (others : List α) (start : α),
          others.foldl (fun chosen item => if better item chosen then item else chosen) start
            ∈ start :: others from kept rest first
      intro others
      induction others with
      | nil => simp
      | cons head tail ih =>
          intro start
          rw [List.foldl_cons]
          have found := ih (if better head start then head else start)
          rcases List.mem_cons.1 found with same | later
          · rw [same]
            split <;> simp
          · simp [later]

end GrammarKit
