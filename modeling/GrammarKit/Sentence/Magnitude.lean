import GrammarKit.Number.Nearest
import GrammarKit.Sentence.Cost

/-!
# Numbers that meet infinity

Costs are whole numbers of any size as long as they are added to each other. Infinity is a double,
and a whole number that is added to it has to be one too. So while the cost of some nonterminal is
still unknown, a sum in which it stands beside a number beyond all doubles is a fault. Sums are
taken from left to right, and the first fault of the first pass that has one counts.
-/

namespace GrammarKit

set_option autoImplicit false

namespace Cost

def fits (cost : Cost) : Bool := fitsDouble cost.tokens && fitsDouble cost.expansions

/-- Adds to a running total, where nothing stands for infinity. -/
def meet (total amount : Option Cost) : Except Fault (Option Cost) :=
  match total, amount with
  | some left, some right => return some (left.add right)
  | none, none => return none
  | some cost, none | none, some cost => if cost.fits then return none else throw .numberTooLarge

@[simp]
theorem meet_known (left right : Cost) :
    meet (some left) (some right) = .ok (some (left.add right)) := rfl

@[simp]
theorem meet_unknown : meet none none = .ok none := rfl

theorem meet_known_unknown (cost : Cost) :
    meet (some cost) none = if cost.fits then .ok none else .error .numberTooLarge := rfl

theorem meet_unknown_known (cost : Cost) :
    meet none (some cost) = if cost.fits then .ok none else .error .numberTooLarge := rfl

/-- A sum without a fault is the plain sum. -/
theorem meet_eq_sum {total amount result : Option Cost} (met : meet total amount = .ok result) :
    result = Cost.sum total amount := by
  cases total with
  | none =>
      cases amount with
      | none =>
          cases met
          rfl
      | some cost =>
          rw [meet_unknown_known] at met
          split at met
          · cases met
            rfl
          · cases met
  | some left =>
      cases amount with
      | none =>
          rw [meet_known_unknown] at met
          split at met
          · cases met
            rfl
          · cases met
      | some right =>
          cases met
          rfl

end Cost

namespace CostTable

/-- Adds the cost of a symbol, which must have a place in the table unless it is a token. -/
def gather (table : CostTable) (costs : TokenCosts) (total : Option Cost) (symbol : Symbol) :
    Except Fault (Option Cost) := do
  let amount ←
    if symbol.isTerminal then pure (some ⟨costs.of symbol, 0⟩)
    else require (item? table.entries symbol.index) .outsideTable
  Cost.meet total amount

def faultOf (table : CostTable) (costs : TokenCosts) (start : Cost) (production : Production) :
    Option Fault :=
  match production.rhs.foldlM (table.gather costs) (some start) with
  | .ok _ => none
  | .error fault => some fault

end CostTable

/-- A table in the making, with the first fault that came up. -/
structure Trial where
  table : CostTable
  fault : Option Fault
deriving DecidableEq

namespace Trial

def learn (costs : TokenCosts) (start : Cost) (trial : Trial) (production : Production) : Trial where
  table := trial.table.learn costs production
  fault := trial.fault.or (trial.table.faultOf costs start production)

def pass (costs : TokenCosts) (start : Cost) (productions : List Production) (trial : Trial) :
    Trial :=
  productions.foldl (learn costs start) trial

end Trial

namespace Grammar

/-- Goes through the passes that settle a table of costs and looks for faults. A fault may take one
pass more than the table, which has no say in it by then. -/
def checkSums (grammar : Grammar) (costs : TokenCosts) (start : Cost) : Except Fault Unit :=
  let trial := (settle (Trial.pass costs start grammar.productions)
    (grammar.nonterminals.length + 2) ⟨CostTable.blank grammar, none⟩).1
  match trial.fault with
  | some fault => throw fault
  | none => return ()

def checkExpansions (grammar : Grammar) : Except Fault Unit := grammar.checkSums .free Cost.zero

/-- The sums by which costs are found. They start from one expansion. -/
def checkCosts (grammar : Grammar) (costs : TokenCosts) : Except Fault Unit :=
  grammar.checkSums costs ⟨0, 1⟩

end Grammar

end GrammarKit
