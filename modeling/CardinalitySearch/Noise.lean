/-
CardinalitySearch.Noise — how often the search moves at random.

The noise level is the percentage of steps that flip a random literal of the
chosen constraint instead of the best one.  It lies between 0 and 100.  After
a greedy move it adapts by one: down when the move gains more than the
flip before it did, up otherwise.  At the end of the scale it stays.
-/
import CardinalitySearch.Random.Source

namespace CardinalitySearch

/-- A noise level in percent. -/
structure Noise where
  /-- The percentage of random moves. -/
  percent : Nat
deriving DecidableEq

namespace Noise

/-- What an adaptation did to the level. -/
inductive Adjustment where
  | decreased
  | increased
  | unchanged
deriving DecidableEq

/-- The highest level. -/
def maximum : Nat :=
  100

/-- The level closest to `percent` on the scale. -/
def clamp (percent : Nat) : Noise :=
  ⟨min percent maximum⟩

/-- The level used when none is given. -/
def default : Noise :=
  clamp 50

/-- Draws one of the hundred percents; the move is random when it lies below
the level. -/
def toss {σ : Type} [RandomSource σ] (n : Noise) (source : σ) : Bool × σ :=
  let (percent, source) := RandomSource.below maximum source
  (decide (percent < n.percent), source)

/-- Compares the gain of a greedy move with the improvement of the flip before
it and moves the level by one, if the scale allows it. -/
def adapt (n : Noise) (gain improvement : Int) : Noise × Adjustment :=
  if improvement < gain then
    if n.percent = 0 then (n, .unchanged) else (⟨n.percent - 1⟩, .decreased)
  else
    if n.percent = maximum then (n, .unchanged) else (⟨n.percent + 1⟩, .increased)

end Noise

end CardinalitySearch
