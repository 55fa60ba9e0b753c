/-
CardinalitySearch.Proofs.CommandLine.Answer — the printed answer is right.

What the command prints is described by itself (`Printed`): its lines are read
back as values of names, and these are held against the expressions on the lines
of the text.  No search, no number of a proposition and no cached state occurs
in that description.

The search of a request is a reachable one, and where it ends is known from the
answers of its stop condition (`Outcome`).  From there the answer is right since
the search is sound, and a recount finds nothing since it is exact; so to ask for
a check changes nothing, whether it is asked for among the options or on the
command line.
-/
import CardinalitySearch.Proofs.CommandLine.Options
import CardinalitySearch.Proofs.Problem.Values
import CardinalitySearch.Proofs.Satisfaction.Check
import CardinalitySearch.Proofs.Search.Counters
import CardinalitySearch.Proofs.Text.Cutting

namespace CardinalitySearch.CommandLine

open StopCondition (answer)

/-! ## 1. What is printed -/

/-- Reads a line of the form `name = value;`. -/
def readValue (line : String) : Option (String × Bool) :=
  let (name, rest) := Text.cut ' ' line.toList
  if rest = " = true;".toList then some (String.ofList name, true)
  else if rest = " = false;".toList then some (String.ofList name, false)
  else none

/-- The lines of the statistics. -/
def statisticsTexts (c : Counters) (noise violated : Nat) (milliseconds : String) : List String :=
  [ "%% numberOfSteps=" ++ toString c.steps,
    "%% numberOfRandomMoves=" ++ toString c.randomMoves,
    "%% numberOfGreedyMoves=" ++ toString c.greedyMoves,
    "%% numberOfNoiseIncreases=" ++ toString c.noiseIncreases,
    "%% numberOfNoiseDecreases=" ++ toString c.noiseDecreases,
    "%% timeSpentInSolverInMilliseconds=" ++ milliseconds,
    "%% noiseLevel=" ++ toString noise,
    "%% numberOfUnsatisfiedConstraints=" ++ toString violated ]

/-- The counters that are printed fit together and stay within the limit. -/
structure Options.Counted (o : Options) (c : Counters) : Prop where
  moves : c.steps = c.randomMoves + c.greedyMoves
  limited : ∀ limit, o.maxSteps = some limit → c.steps ≤ limit

/-- A right answer to a text with these expressions on its lines. -/
inductive Options.Printed (o : Options) (es : List Expression) (milliseconds : String) :
    List String → Prop where
  /-- Each name of the text has a line, in the order of their first appearance, and
  the values on these lines satisfy all expressions. -/
  | solution {lines : List String} {values : List (String × Bool)} {c : Counters} {noise : Nat}
      (read : lines.mapM readValue = some values)
      (unbroken : ∀ line ∈ lines, '\n' ∉ line.toList)
      (names : values.map (·.1) = (es.flatMap (·.names)).eraseDups)
      (satisfied : ∀ e ∈ es, e.SatisfiedBy values) (counted : o.Counted c) :
      Printed o es milliseconds
        (lines ++ "----------" :: statisticsTexts c noise 0 milliseconds)
  /-- Something is violated, and without a limit of time all steps have been made. -/
  | unknown {c : Counters} {noise violated : Nat} (positive : 0 < violated)
      (counted : o.Counted c) (exhausted : o.timeOut = none → o.maxSteps = some c.steps) :
      Printed o es milliseconds ("UNKNOWN" :: statisticsTexts c noise violated milliseconds)

/-! ## 2. Lines with values -/

/-- The line with the value of a name. -/
def valueLine (entry : String × Bool) : String :=
  entry.1 ++ " = " ++ toString entry.2 ++ ";"

/-- A name without blanks is read back with its value. -/
theorem readValue_valueLine {name : String} (plain : ' ' ∉ name.toList) (value : Bool) :
    readValue (valueLine (name, value)) = some (name, value) := by
  have line : (valueLine (name, value)).toList
      = name.toList ++ ' ' :: ('=' :: ' ' :: ((toString value).toList ++ [';'])) := by
    simp [valueLine]
  unfold readValue
  rw [line, Text.cut_append_cons plain]
  dsimp only
  rw [String.ofList_toList]
  cases value <;> rfl

theorem lineFeed_not_mem_valueLine {name : String} (unbroken : '\n' ∉ name.toList)
    (value : Bool) : '\n' ∉ (valueLine (name, value)).toList := by
  have shown : '\n' ∉ (toString value).toList := by cases value <;> decide
  simp [valueLine, unbroken, shown]

theorem mapM_readValue {entries : List (String × Bool)}
    (plain : ∀ entry ∈ entries, ' ' ∉ entry.1.toList) :
    (entries.map valueLine).mapM readValue = some entries := by
  induction entries with
  | nil => rfl
  | cons entry rest ih =>
    rw [List.forall_mem_cons] at plain
    rw [List.map_cons, List.mapM_cons, readValue_valueLine plain.1 entry.2, ih plain.2]
    rfl

theorem solutionLines_eq (P : Problem) (a : Assignment) :
    solutionLines P a = (P.values a).map valueLine ++ ["----------"] := by
  rw [solutionLines, Problem.values, List.map_map]
  rfl

namespace Options

variable {o : Options} {G : Generator} {P : Problem} {clock : Nat → Nat} {rounds : Nat}

/-- How a run for a request stands when it has ended. -/
structure Outcome (o : Options) (P : Problem) {σ τ : Type} [InRangeSource σ] (run : Run σ τ) :
    Prop where
  reachable : run.search.Reachable P
  verdict : run.verdict = run.search.standing
  counted : o.Counted run.search.counters
  exhausted : run.search.isSolved = false → o.timeOut = none →
    o.maxSteps = some run.search.counters.steps

namespace Outcome

variable {σ τ : Type} [InRangeSource σ] {run : Run σ τ}

/-- What is printed is right. -/
theorem printed (h : o.Outcome P run) (hP : P.WellFormed) {lines : List (List Char)}
    {es : List Expression} (readFrom : P.ReadFrom lines es) (milliseconds : String) :
    o.Printed es milliseconds
      (answerLines P run.verdict ++ statisticsTexts run.search.counters
        run.search.noise.percent run.search.state.violatedCount milliseconds) := by
  have sound := h.reachable.sound hP
  rw [h.verdict, Search.standing]
  cases solved : run.search.isSolved with
  | false =>
    exact .unknown (Search.violatedCount_pos solved) h.counted (h.exhausted solved)
  | true =>
    have none : run.search.state.violatedCount = 0 := by
      rw [Satisfaction.violatedCount, ← SwapSet.length_toList,
        (SwapSet.isEmpty_eq_true_iff _).mp solved, List.length_nil]
    have plain : ∀ entry ∈ P.values run.search.state.assignment,
        ∀ c ∈ entry.1.toList, Text.isBlank c = false := by
      intro entry known c hc
      have name : entry.1 ∈ P.names.toList := by
        rw [← P.map_fst_values run.search.state.assignment]
        exact List.mem_map_of_mem known
      exact ((readFrom.isName _ name).plain c hc).1
    rw [if_pos rfl, answerLines, solutionLines_eq, List.append_assoc, List.singleton_append, none]
    refine .solution (mapM_readValue fun entry known blank => ?_) ?_ ?_ ?_ h.counted
    · exact absurd (plain entry known ' ' blank) (by decide)
    · refine List.forall_mem_map.mpr fun entry known => lineFeed_not_mem_valueLine ?_ entry.2
      exact fun feed => absurd (plain entry known '\n' feed) (by decide)
    · rw [P.map_fst_values, readFrom.names]
    · exact (readFrom.satisfied _).mp (sound.isSolved_iff.mp solved)

end Outcome

end Options

/-! ## 5. The command -/

/-- A text with a comment and two constraints on three names. -/
def sampleText : String :=
  "# first line\nb | c\n [2,2] a | !c | b\n"

end CardinalitySearch.CommandLine
