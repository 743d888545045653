import GrammarKit.Fault
import GrammarKit.Random.Twister
import GrammarKit.Random.Weight

/-!
# Sources of choices

A picker chooses one of several candidates and may weigh them; that is all that a generator of
sentences asks of it. A source is either random or follows a script.
-/

namespace GrammarKit

set_option autoImplicit false

/-- A way to choose a number below a size, with weights for the numbers or without. -/
structure Picker (σ : Type) where
  pick : (size : Nat) → 0 < size → Option (List Weight) → σ → Except Fault (Fin size) × σ

inductive Source where
  | random (twister : Twister)
  /-- Each choice takes the next pick, modulo the number of candidates. When all picks are used up
  the first candidate is taken. Weights make no difference. -/
  | scripted (picks : List Int)

namespace Source

def isScripted : Source → Bool
  | random _ => false
  | scripted _ => true

/-- The first place before the last one whose running sum exceeds `point`, or else the last. -/
def firstExceeding (point : Float) : List Weight → Nat
  | [] => 0
  | [_] => 0
  | sum :: rest =>
      if exactValue point < sum.exact then 0 else firstExceeding point rest + 1

def weighted (size : Nat) (nonempty : 0 < size) (weights : List Weight) (twister : Twister) :
    Except Fault (Fin size) × Twister :=
  let sums := (Weight.runningSums? (.whole 0) weights).getD []
  match (sums.getLast?).bind (·.toDouble?) with
  | none => (.error .numberTooLarge, twister)
  | some total =>
      if total.isFinite then
        let (portion, twister) := twister.unit
        let place := firstExceeding (portion * total) sums
        (.ok (if inside : place < size then ⟨place, inside⟩ else ⟨0, nonempty⟩), twister)
      else (.error .unboundedWeights, twister)

def scriptedPick (size : Nat) (nonempty : 0 < size) (pick : Int) : Fin size :=
  ⟨(pick % size).toNat, by
    have positive : (0 : Int) < size := by omega
    have lower := Int.emod_nonneg pick (Int.ne_of_gt positive)
    have upper := Int.emod_lt_of_pos pick positive
    omega⟩

def pick (size : Nat) (nonempty : 0 < size) (weights : Option (List Weight)) :
    Source → Except Fault (Fin size) × Source
  | scripted [] => (.ok ⟨0, nonempty⟩, scripted [])
  | scripted (first :: rest) => (.ok (scriptedPick size nonempty first), scripted rest)
  | random twister =>
      match weights with
      | none =>
          let (choice, twister) := twister.uniform size nonempty
          (.ok choice, random twister)
      | some weights =>
          let (choice, twister) := weighted size nonempty weights twister
          (choice, random twister)

def picker : Picker Source := ⟨pick⟩

end Source

end GrammarKit
