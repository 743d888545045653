/-!
# The Mersenne twister

A generator of 32-bit words with 624 words of state, seeded by a number of any size. The state is
renewed as a whole once all its words have been handed out.
-/

namespace GrammarKit

set_option autoImplicit false

structure Twister where
  words : Array UInt32
  used : Nat

namespace Twister

def stateSize : Nat := 624

def shiftSize : Nat := 397

def scramble (word : UInt32) : UInt32 := word ^^^ (word >>> 30)

/-- A state that depends on one word. -/
def stateOfWord (seed : UInt32) : Array UInt32 :=
  (List.range (stateSize - 1)).foldl
    (fun words place =>
      words.push (1812433253 * scramble (words.getD place 0) + UInt32.ofNat (place + 1)))
    #[seed]

/-- Goes back to the second word behind the last one. The first word takes over the last. -/
def wrap (words : Array UInt32) (place : Nat) : Array UInt32 × Nat :=
  if place < stateSize then (words, place)
  else (words.setIfInBounds 0 (words.getD (stateSize - 1) 0), 1)

def mixKey (key : Array UInt32) : Array UInt32 × Nat × Nat → Array UInt32 × Nat × Nat
  | (words, place, turn) =>
      let before := scramble (words.getD (place - 1) 0)
      let mixed :=
        (words.getD place 0 ^^^ (before * 1664525)) + key.getD turn 0 + UInt32.ofNat turn
      let (words, place) := wrap (words.setIfInBounds place mixed) (place + 1)
      (words, place, if turn + 1 < key.size then turn + 1 else 0)

def mixPlace : Array UInt32 × Nat → Array UInt32 × Nat
  | (words, place) =>
      let before := scramble (words.getD (place - 1) 0)
      let mixed := (words.getD place 0 ^^^ (before * 1566083941)) - UInt32.ofNat place
      wrap (words.setIfInBounds place mixed) (place + 1)

def ofKey (key : Array UInt32) : Twister :=
  let rounds := max stateSize key.size
  let (words, place, _) := Nat.repeat (mixKey key) rounds (stateOfWord 19650218, 1, 0)
  let (words, _) := Nat.repeat mixPlace (stateSize - 1) (words, place)
  ⟨words.setIfInBounds 0 0x80000000, stateSize⟩

/-- The 32-bit words of a number, least significant first. Zero has one word. -/
def wordsOf (number : Nat) : List UInt32 :=
  (List.range (number.log2 / 32 + 1)).map fun place => UInt32.ofNat (number >>> (32 * place))

/-- The sign of a seed does not matter. -/
def ofSeed (seed : Int) : Twister := ofKey (wordsOf seed.natAbs).toArray

def renewWord (words : Array UInt32) (place : Nat) : Array UInt32 :=
  let next := words.getD ((place + 1) % stateSize) 0
  let joined := (words.getD place 0 &&& 0x80000000) ||| (next &&& 0x7fffffff)
  let twist : UInt32 := if joined &&& 1 = 0 then 0 else 0x9908b0df
  let far := words.getD ((place + shiftSize) % stateSize) 0
  words.setIfInBounds place (far ^^^ (joined >>> 1) ^^^ twist)

def renew (words : Array UInt32) : Array UInt32 :=
  (List.range stateSize).foldl renewWord words

def temper (word : UInt32) : UInt32 :=
  let word := word ^^^ (word >>> 11)
  let word := word ^^^ ((word <<< 7) &&& 0x9d2c5680)
  let word := word ^^^ ((word <<< 15) &&& 0xefc60000)
  word ^^^ (word >>> 18)

def next (twister : Twister) : UInt32 × Twister :=
  if twister.used < stateSize then
    (temper (twister.words.getD twister.used 0), ⟨twister.words, twister.used + 1⟩)
  else
    let words := renew twister.words
    (temper (words.getD 0 0), ⟨words, 1⟩)

/-- A double from zero up to one, with 53 random bits. -/
def unit (twister : Twister) : Float × Twister :=
  let (high, twister) := twister.next
  let (low, twister) := twister.next
  let bits := (high >>> 5).toNat * 67108864 + (low >>> 6).toNat
  (Float.ofNat bits / 9007199254740992.0, twister)

/-- Draws numbers of `bits` bits until one is below `size`, and takes the first one after
`attempts` failures. -/
def below (size bits : Nat) (nonempty : 0 < size) : Nat → Twister → Fin size × Twister
  | 0, twister => (⟨0, nonempty⟩, twister)
  | attempts + 1, twister =>
      let (word, twister) := twister.next
      let number := word.toNat >>> (32 - bits)
      if inside : number < size then (⟨number, inside⟩, twister)
      else below size bits nonempty attempts twister

/-- A number below `size`, all of them alike. At most half of the numbers with as many bits are too
large, so four thousand failures in a row do not occur. -/
def uniform (size : Nat) (nonempty : 0 < size) (twister : Twister) : Fin size × Twister :=
  below size (size.log2 + 1) nonempty 4096 twister

end Twister

end GrammarKit
