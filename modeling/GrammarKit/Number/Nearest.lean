/-!
# Nearest doubles

A fraction is rounded to the nearest double. Halfway between two doubles the one with the even
significand is taken, and what lies beyond the largest double becomes infinite. The rounding is done
once and in exact arithmetic, also among the smallest doubles, which have fewer digits.
-/

namespace GrammarKit

set_option autoImplicit false

/-- The whole number nearest to a fraction, the even one of two that are equally near. -/
def roundedQuotient (numerator denominator : Nat) : Nat :=
  let quotient := numerator / denominator
  let twice := 2 * (numerator % denominator)
  if twice < denominator then quotient
  else if denominator < twice then quotient + 1
  else quotient + quotient % 2

/-- A rounded quotient is at most half a unit away. -/
theorem rounded_quotient_near (numerator denominator : Nat) (positive : 0 < denominator) :
    2 * numerator ≤ (2 * roundedQuotient numerator denominator + 1) * denominator ∧
      2 * roundedQuotient numerator denominator * denominator ≤ 2 * numerator + denominator := by
  have parts := Nat.div_add_mod numerator denominator
  have small := Nat.mod_lt numerator positive
  have product : numerator / denominator * denominator = denominator * (numerator / denominator) :=
    Nat.mul_comm _ _
  unfold roundedQuotient
  simp only
  split
  · constructor <;> simp only [Nat.add_mul, Nat.mul_assoc, product] <;> omega
  · split
    · constructor <;> simp only [Nat.add_mul, Nat.mul_add, Nat.mul_assoc, product] <;> omega
    · rcases Nat.mod_two_eq_zero_or_one (numerator / denominator) with even | odd
      · rw [even]
        constructor <;> simp only [Nat.add_mul, Nat.add_zero, Nat.mul_assoc, product] <;> omega
      · rw [odd]
        constructor <;> simp only [Nat.add_mul, Nat.mul_add, Nat.mul_assoc, product] <;> omega

/-- The power of two that the last digit of the nearest double stands for. A double has 53 digits,
fewer only where the last one would stand for less than the smallest double. -/
def lastPower (numerator denominator : Nat) : Int :=
  let guess : Int := (numerator.log2 : Int) - denominator.log2
  let first :=
    if numerator * Nat.pow 2 (-guess).toNat < denominator * Nat.pow 2 guess.toNat then guess - 1
    else guess
  max (first - 52) (-1074)

/-- Whole numbers from here on round to infinity: halfway between the largest double and the power
of two above it. -/
def doubleLimit : Nat := Nat.pow 2 1024 - Nat.pow 2 970

def fitsDouble (value : Int) : Bool := decide (value.natAbs < doubleLimit)

def infinityBits : Nat := 2047 * Nat.pow 2 52

/-- The double nearest to a fraction. The bits of the nonnegative doubles are counted up from zero
in their order, `2 ^ 52` of them to each power of two. -/
def nearestDouble (numerator denominator : Nat) : Float :=
  if numerator = 0 then 0.0
  else
    let power := lastPower numerator denominator
    let digits :=
      roundedQuotient (numerator * Nat.pow 2 (-power).toNat) (denominator * Nat.pow 2 power.toNat)
    let bits := (power + 1074).toNat * Nat.pow 2 52 + digits
    Float.ofBits (UInt64.ofNat (min bits infinityBits))

def exactValue (double : Float) : Dyadic :=
  let bits : Nat := double.toBits.toNat
  let fraction : Nat := bits % Nat.pow 2 52
  let exponent : Nat := bits / Nat.pow 2 52 % Nat.pow 2 11
  let mantissa : Nat := if exponent = 0 then fraction else fraction + Nat.pow 2 52
  let halvings : Int := if exponent = 0 then 1074 else 1075 - exponent
  Dyadic.ofIntWithPrec (if bits < Nat.pow 2 63 then (mantissa : Int) else -mantissa) halvings

end GrammarKit
