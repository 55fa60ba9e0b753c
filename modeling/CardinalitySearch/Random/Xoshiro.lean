/-
CardinalitySearch.Random.Xoshiro — the generator xoshiro256++.

Four words of 64 bits, all arithmetic modulo the word size.  A seed of one
word is expanded to the four by a linear congruential generator with a
permuted 32-bit output.  Numbers below a bound come from the high half of the
product of a word with the bound; a product whose low half lies in the last,
incomplete part of the range is rejected, which makes all results equally
likely.
-/
import CardinalitySearch.Random.Source

namespace CardinalitySearch

/-- The state of the generator. -/
structure Xoshiro where
  /-- The first word. -/
  a : UInt64
  /-- The second word. -/
  b : UInt64
  /-- The third word. -/
  c : UInt64
  /-- The fourth word. -/
  d : UInt64
deriving DecidableEq

namespace Xoshiro

/-- Rotation of a 64-bit word to the left. -/
def rotateLeft (x : UInt64) (n : UInt64) : UInt64 :=
  (x <<< n) ||| (x >>> (64 - n))

/-- Rotation of a 32-bit word to the right; shift amounts count modulo 32. -/
def rotateRight (x : UInt32) (n : UInt32) : UInt32 :=
  (x >>> n) ||| (x <<< (32 - n))

/-- One step of the seed expansion. -/
def expand (x : UInt64) : UInt64 :=
  x * 6364136223846793005 + 11634580027462260723

/-- The 32 bits which a state of the seed expansion contributes. -/
def permute (x : UInt64) : UInt32 :=
  rotateRight (((x >>> 18) ^^^ x) >>> 27).toUInt32 (x >>> 59).toUInt32

/-- Two steps of the seed expansion and the word they contribute, the earlier
half being the low one. -/
def seedWord (x : UInt64) : UInt64 × UInt64 :=
  let low := expand x
  let high := expand low
  ((permute low).toUInt64 ||| ((permute high).toUInt64 <<< 32), high)

/-- The generator for a seed. -/
def ofSeed (seed : UInt64) : Xoshiro :=
  let (a, x) := seedWord seed
  let (b, x) := seedWord x
  let (c, x) := seedWord x
  let (d, _) := seedWord x
  ⟨a, b, c, d⟩

/-- The next word and the state after it. -/
def next (g : Xoshiro) : UInt64 × Xoshiro :=
  let result := rotateLeft (g.a + g.d) 23 + g.a
  let c := g.c ^^^ g.a
  let d := g.d ^^^ g.b
  (result, ⟨g.a ^^^ d, g.b ^^^ c, c ^^^ (g.b <<< 17), rotateLeft d 45⟩)

/-- The number of words of 64 bits. -/
def wordCount : Nat :=
  18446744073709551616

/-- The greatest low half that is not rejected for a bound: the bound, shifted
until its leading one is the top bit of a word, less one. -/
def zone (bound : Nat) : Nat :=
  (bound <<< (63 - bound.log2)) - 1

/-- Draws words until one is not rejected, or the fuel is used up; then one more
word is taken as it comes. -/
def belowWithin (bound : Nat) : Nat → Xoshiro → Nat × Xoshiro
  | 0, g =>
    let (word, g) := g.next
    (word.toNat * bound / wordCount, g)
  | fuel + 1, g =>
    let (word, g) := g.next
    let wide := word.toNat * bound
    if wide % wordCount ≤ zone bound then (wide / wordCount, g)
    else belowWithin bound fuel g

/-- The number of states.  A generator has been through all the states it will
ever be in after that many words. -/
def stateCount : Nat :=
  1 <<< 256

/-- Draws a number below a positive bound.  If one of the words to come is not
rejected, then one of the first `stateCount` words is not, so that the fuel is
enough. -/
def below (bound : Nat) (g : Xoshiro) : Nat × Xoshiro :=
  belowWithin bound stateCount g

/-- Draws a number from `low` up to but not including `high`; `none` when there
is no such number. -/
def between? (low high : Nat) (g : Xoshiro) : Option (Nat × Xoshiro) :=
  if low < high then
    let (offset, g) := g.below (high - low)
    some (low + offset, g)
  else none

/-- Draws a fair coin: the top bit of a word is clear. -/
def coin (g : Xoshiro) : Bool × Xoshiro :=
  let (word, g) := g.next
  (decide (word.toNat < wordCount / 2), g)

/-- Draws `true` with the given probability; `none` when that is not one.
Certainty needs no draw. -/
def chance? (probability : Float) (g : Xoshiro) : Option (Bool × Xoshiro) :=
  if probability == 1.0 then some (true, g)
  else if 0.0 ≤ probability && probability < 1.0 then
    let threshold := (probability.scaleB 64).toUInt64
    let (word, g) := g.next
    some (decide (word < threshold), g)
  else none

theorem belowWithin_lt {bound : Nat} (h : 0 < bound) (fuel : Nat) (g : Xoshiro) :
    (belowWithin bound fuel g).1 < bound := by
  have key : ∀ word : UInt64, word.toNat * bound / wordCount < bound := fun word =>
    Nat.div_lt_of_lt_mul (Nat.mul_lt_mul_of_pos_right word.toNat_lt h)
  induction fuel generalizing g with
  | zero => exact key _
  | succ fuel ih =>
    simp only [belowWithin]
    split
    · exact key _
    · exact ih _

instance : InRangeSource Xoshiro where
  coin := coin
  below := below
  below_lt _ g h := belowWithin_lt h _ g

/-- The generator with a state for each seed, which is one word. -/
def generator : Generator where
  State := Xoshiro
  ofSeed seed := ofSeed seed.toUInt64

end Xoshiro

end CardinalitySearch
