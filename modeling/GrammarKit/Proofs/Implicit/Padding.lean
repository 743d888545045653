import GrammarKit.Symbol

/-!
# Padded sequences

A sequence is padded when each of its symbols has got a row of other symbols behind it. Which rows
may stand in the gap behind a symbol is up to the kind of padding. A place in a padded sequence is
either that of one of its own symbols or lies inside one of the rows.
-/

namespace GrammarKit

set_option autoImplicit false

inductive Padded (gap : Symbol → List Symbol → Prop) : List Symbol → List Symbol → Prop where
  | nil : Padded gap [] []
  | cons {symbol : Symbol} {row form padded : List Symbol} (fits : gap symbol row)
      (rest : Padded gap form padded) : Padded gap (symbol :: form) (symbol :: (row ++ padded))

namespace Padded

variable {gap : Symbol → List Symbol → Prop}

theorem append {left right leftPadded rightPadded : List Symbol}
    (first : Padded gap left leftPadded) (second : Padded gap right rightPadded) :
    Padded gap (left ++ right) (leftPadded ++ rightPadded) := by
  induction first with
  | nil => exact second
  | cons fits _ ih =>
      rw [List.cons_append, List.cons_append, List.append_assoc]
      exact .cons fits ih

theorem singleton {symbol : Symbol} (fits : gap symbol []) : Padded gap [symbol] [symbol] :=
  .cons fits .nil

theorem weaken {wider : Symbol → List Symbol → Prop} {form padded : List Symbol}
    (wide : ∀ symbol ∈ form, ∀ row, row ⊆ padded → gap symbol row → wider symbol row)
    (whole : Padded gap form padded) : Padded wider form padded := by
  induction whole with
  | nil => exact .nil
  | @cons symbol row form padded fits rest ih =>
      apply Padded.cons
      · apply wide symbol (by simp) row _ fits
        intro other member
        simp [member]
      · apply ih
        intro other member row included
        apply wide other (by simp [member]) row
        intro inside found
        simp [included found]

theorem sublist {form padded : List Symbol} (whole : Padded gap form padded) :
    form.Sublist padded := by
  induction whole with
  | nil => exact .slnil
  | cons _ _ ih =>
      apply List.Sublist.cons_cons
      exact ih.trans (List.sublist_append_right _ _)

theorem subset {form padded : List Symbol} (whole : Padded gap form padded) : form ⊆ padded :=
  whole.sublist.subset

theorem all {motive : Symbol → Prop} {form padded : List Symbol}
    (rows : ∀ symbol row, gap symbol row → ∀ inside ∈ row, motive inside)
    (own : ∀ symbol ∈ form, motive symbol) (whole : Padded gap form padded) :
    ∀ symbol ∈ padded, motive symbol := by
  induction whole with
  | nil => simp
  | @cons first row form padded fits rest ih =>
      have later := ih fun other member => own other (by simp [member])
      intro symbol member
      rcases List.mem_cons.1 member with rfl | member
      · exact own symbol (by simp)
      · rcases List.mem_append.1 member with inside | behind
        · exact rows first row fits symbol inside
        · exact later symbol behind

/-- Where a symbol stands in a padded sequence, between `before` and `after`. -/
inductive Place (gap : Symbol → List Symbol → Prop) (symbol : Symbol) :
    List Symbol → List Symbol → List Symbol → Prop where
  | own {left right before row after : List Symbol} (front : Padded gap left before)
      (fits : gap symbol row) (back : Padded gap right after) :
      Place gap symbol (left ++ symbol :: right) before (row ++ after)
  | inRow {owner : Symbol} {left right before first last after : List Symbol}
      (front : Padded gap left before) (fits : gap owner (first ++ symbol :: last))
      (back : Padded gap right after) :
      Place gap symbol (left ++ owner :: right) (before ++ owner :: first) (last ++ after)

theorem Place.behind {symbol first : Symbol} {row form before after : List Symbol}
    (fits : gap first row) (place : Place gap symbol form before after) :
    Place gap symbol (first :: form) (first :: (row ++ before)) after := by
  cases place with
  | own front own back => exact .own (.cons fits front) own back
  | @inRow owner left right before start last after front own back =>
      have shape : first :: (row ++ (before ++ owner :: start)) =
          first :: (row ++ before) ++ owner :: start := by simp
      rw [shape]
      exact .inRow (.cons fits front) own back

theorem place {form padded before after : List Symbol} {symbol : Symbol}
    (whole : Padded gap form padded) (shape : padded = before ++ symbol :: after) :
    Place gap symbol form before after := by
  induction whole generalizing before with
  | nil => simp at shape
  | @cons owner row form padded fits rest ih =>
      cases before with
      | nil =>
          rw [List.nil_append, List.cons.injEq] at shape
          rcases shape with ⟨rfl, rfl⟩
          exact .own .nil fits rest
      | cons head before =>
          rw [List.cons_append, List.cons.injEq] at shape
          rcases shape with ⟨rfl, shape⟩
          rcases List.append_eq_append_iff.1 shape with
            ⟨further, rfl, later⟩ | ⟨front, inside, later⟩
          · exact (ih later).behind fits
          · cases front with
            | nil =>
                rw [List.append_nil] at inside
                subst inside
                have start : padded = [] ++ symbol :: after := later.symm
                have place := (ih start).behind fits
                rwa [List.append_nil] at place
            | cons found last =>
                rw [List.cons_append, List.cons.injEq] at later
                rcases later with ⟨rfl, rfl⟩
                rw [inside] at fits
                exact .inRow .nil fits rest

end Padded

end GrammarKit
