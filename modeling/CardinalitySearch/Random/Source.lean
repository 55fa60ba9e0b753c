/-
CardinalitySearch.Random.Source — where the random choices come from.

A search makes two kinds of random choice: a fair coin for each value of a
random initial assignment, and a number below a bound for everything else.
A source is a state from which both can be drawn.  Being in range is a
property on its own, since a source that breaks it can still be run.  A generator
has a source in range for each seed.
-/

namespace CardinalitySearch

/-- A state from which random choices are drawn. -/
class RandomSource (σ : Type) where
  /-- Draws a truth value. -/
  coin : σ → Bool × σ
  /-- Draws a number that should be below a positive bound. -/
  below : Nat → σ → Nat × σ

/-- The sources whose numbers lie below the bound asked for. -/
class InRangeSource (σ : Type) extends RandomSource σ where
  /-- No draw with a positive bound reaches the bound. -/
  below_lt : ∀ (bound : Nat) (s : σ), 0 < bound → (below bound s).1 < bound

/-- A kind of source in range, with one for each seed. -/
structure Generator where
  /-- The states. -/
  State : Type
  /-- How to draw from a state. -/
  [source : InRangeSource State]
  /-- The state for a seed. -/
  ofSeed : Nat → State

attribute [instance] Generator.source

end CardinalitySearch
