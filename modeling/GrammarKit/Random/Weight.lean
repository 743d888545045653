import GrammarKit.Number.Nearest

/-!
# Weights

A weight is a whole number or a double. Sums of whole numbers are exact; a sum in which a double
takes part is rounded at every step, and there is none when a whole number in it lies beyond all
doubles. Comparisons never round.
-/

namespace GrammarKit

set_option autoImplicit false

inductive Weight where
  | whole (value : Int)
  | real (value : Float)

/-- `digits` divided by ten to the power `places`. -/
structure Decimal where
  digits : Int
  places : Nat
deriving DecidableEq, Repr

/-- Every halving costs a decimal place: `1 / 2 = 5 / 10`. -/
def Decimal.ofDyadic : Dyadic → Decimal
  | .zero => ⟨0, 0⟩
  | .ofOdd odd halvings _ =>
      if halvings ≤ 0 then ⟨odd * Int.pow 2 (-halvings).toNat, 0⟩
      else ⟨odd * Int.pow 5 halvings.toNat, halvings.toNat⟩

namespace Weight

/-- The weight of a production for which none was given. -/
def standard : Weight := .real 1.0

/-- The nearest double, unless the weight lies beyond all doubles. -/
def toDouble? : Weight → Option Float
  | whole value =>
      let size := nearestDouble value.natAbs 1
      if fitsDouble value then some (if value < 0 then -size else size) else none
  | real value => some value

def exact : Weight → Dyadic
  | whole value => Dyadic.ofInt value
  | real value => exactValue value

def decimal (weight : Weight) : Decimal := Decimal.ofDyadic weight.exact

/-- A sum with a double needs a double for the other side too. -/
def add? : Weight → Weight → Option Weight
  | whole left, whole right => some (whole (left + right))
  | left, right => do return real ((← left.toDouble?) + (← right.toDouble?))

def isNegative : Weight → Bool
  | whole value => decide (value < 0)
  | real value => value < 0

def isPositive : Weight → Bool
  | whole value => decide (0 < value)
  | real value => 0 < value

def total? (weights : List Weight) : Option Weight := weights.foldlM add? (whole 0)

/-- The running sums, one per weight, on top of `sum`. -/
def runningSums? (sum : Weight) : List Weight → Option (List Weight)
  | [] => some []
  | weight :: rest => do
      let next ← sum.add? weight
      return next :: (← runningSums? next rest)

end Weight

end GrammarKit
