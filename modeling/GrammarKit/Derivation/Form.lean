import GrammarKit.Grammar.Basic

/-!
# Derivations of sentential forms

A step replaces one occurrence of the head of a production by its right-hand side. A form derives
another one over any number of steps. Main statements: derivations compose, and they may happen
anywhere inside a longer form.
-/

namespace GrammarKit

set_option autoImplicit false

namespace Grammar

inductive Step (grammar : Grammar) : List Symbol → List Symbol → Prop where
  | expand {production : Production} (member : production ∈ grammar.productions)
      (before after : List Symbol) :
      Step grammar (before ++ production.lhs :: after) (before ++ production.rhs ++ after)

inductive Derives (grammar : Grammar) (form : List Symbol) : List Symbol → Prop where
  | refl : Derives grammar form form
  | tail {middle final : List Symbol} (earlier : Derives grammar form middle)
      (last : grammar.Step middle final) : Derives grammar form final

/-- Over at least one step. -/
def DerivesProperly (grammar : Grammar) (form final : List Symbol) : Prop :=
  ∃ next, grammar.Step form next ∧ grammar.Derives next final

variable {grammar : Grammar}

theorem Step.of_production {production : Production}
    (member : production ∈ grammar.productions) :
    grammar.Step [production.lhs] production.rhs := by
  have step := Step.expand member [] []
  simpa using step

theorem Step.inside {form next : List Symbol} (step : grammar.Step form next)
    (before after : List Symbol) :
    grammar.Step (before ++ form ++ after) (before ++ next ++ after) := by
  cases step with
  | expand member left right =>
      have moved := Step.expand member (before ++ left) (right ++ after)
      simpa [List.append_assoc] using moved

namespace Derives

theorem single {form next : List Symbol} (step : grammar.Step form next) :
    grammar.Derives form next := .tail .refl step

theorem trans {form middle final : List Symbol} (first : grammar.Derives form middle)
    (second : grammar.Derives middle final) : grammar.Derives form final := by
  induction second with
  | refl => exact first
  | tail _ last ih => exact .tail ih last

theorem inside {form final : List Symbol} (derivation : grammar.Derives form final)
    (before after : List Symbol) :
    grammar.Derives (before ++ form ++ after) (before ++ final ++ after) := by
  induction derivation with
  | refl => exact .refl
  | tail _ last ih => exact .tail ih (last.inside before after)

theorem append {left right leftFinal rightFinal : List Symbol}
    (first : grammar.Derives left leftFinal) (second : grammar.Derives right rightFinal) :
    grammar.Derives (left ++ right) (leftFinal ++ rightFinal) := by
  have firstMoved := first.inside [] right
  have secondMoved := second.inside leftFinal []
  simp only [List.nil_append, List.append_nil] at firstMoved secondMoved
  exact firstMoved.trans secondMoved

theorem of_production {production : Production} (member : production ∈ grammar.productions) :
    grammar.Derives [production.lhs] production.rhs := single (.of_production member)

end Derives

/-- Whether a symbol derives some finite sequence of terminals. -/
def DerivesTokens (grammar : Grammar) (symbol : Symbol) : Prop :=
  ∃ tokens : List Symbol, (∀ token ∈ tokens, token.isTerminal) ∧
    grammar.Derives [symbol] tokens

end Grammar

end GrammarKit
