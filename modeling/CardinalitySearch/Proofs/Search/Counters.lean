/-
CardinalitySearch.Proofs.Search.Counters — what the counters of a search say.

A step of an unsolved search is counted once as a step and once as a move of its
kind; flips by hand and changes of the noise level are not counted, and the step
of a solved search is none.  So steps are random and greedy moves together, and
as long as a search stays unsolved its counter tells how many steps were made.
-/
import CardinalitySearch.Proofs.Search.Solving

namespace CardinalitySearch

namespace Counters

/-- The moves of both kinds. -/
def moves (c : Counters) : Nat :=
  c.randomMoves + c.greedyMoves

/-- An adaptation is neither a step nor a move. -/
theorem steps_record (c : Counters) (adjustment : Noise.Adjustment) :
    (c.record adjustment).steps = c.steps := by
  cases adjustment <;> rfl

theorem moves_record (c : Counters) (adjustment : Noise.Adjustment) :
    (c.record adjustment).moves = c.moves := by
  cases adjustment <;> rfl

end Counters

namespace Search

variable {σ : Type} {P : Problem} {s : Search σ}

theorem counters_adapt (s : Search σ) (gain : Int) :
    (s.adapt gain).counters.steps = s.counters.steps ∧
      (s.adapt gain).counters.moves = s.counters.moves := by
  unfold adapt
  split
  · exact ⟨s.counters.steps_record _, s.counters.moves_record _⟩
  · exact ⟨rfl, rfl⟩

theorem counters_randomMove (s : Search σ) (l : Literal) :
    (s.randomMove l).counters.steps = s.counters.steps + 1 ∧
      (s.randomMove l).counters.moves = s.counters.moves + 1 :=
  ⟨rfl, Nat.add_right_comm _ _ _⟩

theorem counters_greedyMove (s : Search σ) (l : Literal) (gain : Int) :
    (s.greedyMove l gain).counters.steps = s.counters.steps + 1 ∧
      (s.greedyMove l gain).counters.moves = s.counters.moves + 1 := by
  have adapted := counters_adapt { s with
    counters := { s.counters with greedyMoves := s.counters.greedyMoves + 1 } } gain
  exact ⟨congrArg (· + 1) adapted.1, adapted.2⟩

variable [InRangeSource σ]

/-- A step of an unsolved search is one step and one move. -/
theorem Sound.counters_step (h : s.Sound P) (unsolved : s.isSolved = false) :
    s.step.counters.steps = s.counters.steps + 1 ∧
      s.step.counters.moves = s.counters.moves + 1 := by
  have cases := h.step_cases
  generalize s.step = t at cases
  cases cases with
  | solved done => exact absurd unsolved (by simp [done])
  | random => exact counters_randomMove _ _
  | greedy => exact counters_greedyMove _ _ _

/-- In every state of every run the steps are the random and the greedy moves. -/
theorem Reachable.steps_eq_moves (h : s.Reachable P) (hP : P.WellFormed) :
    s.counters.steps = s.counters.randomMoves + s.counters.greedyMoves := by
  refine h.induction hP (motive := fun s => s.counters.steps = s.counters.moves)
    ?_ ?_ ?_ ?_
  · exact fun _ _ _ => rfl
  · exact fun _ _ same => same
  · intro t ht same
    cases solved : t.isSolved with
    | true => rw [step_of_isSolved solved, same]
    | false =>
      obtain ⟨steps, moves⟩ := ht.counters_step solved
      rw [steps, moves, same]
  · exact fun _ _ same => same

/-- Steps of a search that stays unsolved are counted one by one. -/
theorem Sound.steps_stepMany {k : Nat} :
    ∀ {s : Search σ}, s.Sound P → (∀ j < k, (s.stepMany j).2.isSolved = false) →
      (s.stepMany k).2.counters.steps = s.counters.steps + k := by
  induction k with
  | zero => exact fun _ _ => rfl
  | succ k ih =>
    intro s h unsolved
    have first := (h.counters_step (unsolved 0 k.succ_pos)).1
    have others := ih h.step fun j hj => unsolved (j + 1) (Nat.succ_lt_succ hj)
    rw [first, Nat.add_right_comm, Nat.add_assoc] at others
    exact others

end Search

end CardinalitySearch
