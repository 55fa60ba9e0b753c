/-
CardinalitySearch.Search.Solve — searching until told to stop.

Solving repeats one round: a search with nothing violated has found a
solution; otherwise the stop condition is asked, once, and unless it says to
stop a step is made.  No round decides that a problem has no solution.

A stop condition need not ever stop, so the number of rounds is limited from
outside.  A run that ends by that limit is told apart from one that ends by
itself, and its search and condition can be taken up again.
-/
import CardinalitySearch.Search.Basic
import CardinalitySearch.Stopping

namespace CardinalitySearch

/-- How a run stands. -/
inductive Verdict where
  /-- This assignment satisfies every constraint. -/
  | satisfiable (solution : Assignment)
  /-- The stop condition said to stop. -/
  | unknown
  /-- Neither of the two so far. -/
  | unfinished
deriving DecidableEq

/-- A run at some point. -/
structure Run (σ τ : Type) where
  /-- How it stands. -/
  verdict : Verdict
  /-- The search. -/
  search : Search σ
  /-- The stop condition. -/
  condition : τ

namespace Search

variable {σ τ : Type} [RandomSource σ] [StopCondition τ]

/-- One round. -/
def round (s : Search σ) (condition : τ) : Run σ τ :=
  if s.isSolved then ⟨.satisfiable s.state.assignment, s, condition⟩
  else
    let (stop, condition) := StopCondition.query condition
    if stop then ⟨.unknown, s, condition⟩ else ⟨.unfinished, s.step, condition⟩

/-- Rounds until the run ends, but no more than `rounds`. -/
def solveWithin : Nat → Search σ → τ → Run σ τ
  | 0, s, condition => ⟨.unfinished, s, condition⟩
  | rounds + 1, s, condition =>
    let run := s.round condition
    match run.verdict with
    | .unfinished => solveWithin rounds run.search run.condition
    | _ => run

/-- More rounds than a run can make in any amount of time. -/
def ampleRounds : Nat :=
  18446744073709551616

/-- Rounds until the run ends. -/
def solve (s : Search σ) (condition : τ) : Run σ τ :=
  solveWithin ampleRounds s condition

end Search

namespace Run

variable {σ τ : Type}

/-- What is reported at the end of a run. -/
def events (r : Run σ τ) : List Event :=
  match r.verdict with
  | .satisfiable _ => [.solved r.search.counters.steps]
  | .unknown => [.stopped r.search.counters.steps r.search.state.violatedCount]
  | .unfinished => []

end Run

end CardinalitySearch
