/-
CardinalitySearch.Proofs.Search.Extremes — searches at an end of the noise scale.

The coin of a step lies below 100, so at level 100 each step is a random move.  A
random move does not adapt the level: it stays at 100, adaptive or not, until it
is set by hand, whatever could be gained by greedy moves.  No coin lies below 0,
so at level 0 each step is a greedy move; there the level stays only if adaptation
is off.

What holds of every later step is first proved of one step that finds the level
as it was at the beginning; `Sound.performAll_of_steps` carries it through a run.
-/
import CardinalitySearch.Proofs.Search.NoiseLevel

namespace CardinalitySearch

/-- The counters after so many more random moves, and so many more greedy moves that
adapt nothing. -/
def Counters.addMoves (c : Counters) (random greedy : Nat) : Counters :=
  { c with
    steps := c.steps + random + greedy
    randomMoves := c.randomMoves + random
    greedyMoves := c.greedyMoves + greedy }

namespace Search

variable {σ : Type} {P : Problem} {s : Search σ}

section

variable [RandomSource σ]

/-- The next step is a random move with the literal drawn from the constraint drawn. -/
def StepsAtRandom (s : Search σ) : Prop :=
  ∃ c l, s.drawConstraint.1 = some c ∧
    (s.drawConstraint.2.drawKind.2.drawLiteral c).1 = some l ∧
    s.step = (s.drawConstraint.2.drawKind.2.drawLiteral c).2.randomMove l

/-- The next step is a greedy move with the best literal of the constraint drawn. -/
def StepsGreedily (s : Search σ) : Prop :=
  ∃ c l, s.drawConstraint.1 = some c ∧ s.greedyLiteral c = some (l, s.gain l.proposition) ∧
    s.step = s.drawConstraint.2.drawKind.2.greedyMove l (s.gain l.proposition)

theorem StepsAtRandom.counters_step (h : s.StepsAtRandom) :
    s.step.noise = s.noise ∧ s.step.counters = s.counters.addMoves 1 0 := by
  obtain ⟨c, l, -, -, step⟩ := h
  rw [step]
  exact ⟨rfl, rfl⟩

theorem StepsGreedily.counters_step (h : s.StepsGreedily) (still : s.Still) :
    s.step.noise = s.noise ∧ s.step.counters = s.counters.addMoves 0 1 := by
  obtain ⟨c, l, -, -, step⟩ := h
  have same : s.drawConstraint.2.drawKind.2.Still := still
  rw [step, same.greedyMove_eq]
  exact ⟨rfl, rfl⟩

end

variable [InRangeSource σ]

/-! ## One step at an end -/

end Search

end CardinalitySearch
