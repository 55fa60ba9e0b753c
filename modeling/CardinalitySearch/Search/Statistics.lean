/-
CardinalitySearch.Search.Statistics — the numbers printed after a search.

Each number has a line of its own, a name and a value with an equals sign
between them, after a text that marks the line as a statistic.  The time is
not known to the search and is passed in as text.
-/
import CardinalitySearch.Search.Basic

namespace CardinalitySearch

/-- How statistics are printed. -/
structure StatisticsFormat where
  /-- What every line of a statistic begins with. -/
  lead : String
  /-- A line after the last statistic. -/
  closing : Option String

namespace Search

variable {σ : Type}

/-- The statistics in order, with the time spent solving in milliseconds. -/
def statistics (s : Search σ) (milliseconds : String) : List (String × String) :=
  [ ("numberOfSteps", toString s.counters.steps),
    ("numberOfRandomMoves", toString s.counters.randomMoves),
    ("numberOfGreedyMoves", toString s.counters.greedyMoves),
    ("numberOfNoiseIncreases", toString s.counters.noiseIncreases),
    ("numberOfNoiseDecreases", toString s.counters.noiseDecreases),
    ("timeSpentInSolverInMilliseconds", milliseconds),
    ("noiseLevel", toString s.noise.percent),
    ("numberOfUnsatisfiedConstraints", toString s.state.violatedCount) ]

/-- The lines that print the statistics. -/
def statisticsLines (s : Search σ) (format : StatisticsFormat) (milliseconds : String) :
    List String :=
  (s.statistics milliseconds).map (fun (name, value) => format.lead ++ name ++ "=" ++ value)
    ++ format.closing.toList

end Search

end CardinalitySearch
