import CardinalitySearch.Problem.Step
import CardinalitySearch.Random.Script
import CardinalitySearch.Main
import CardinalitySearch.Proofs.Problem.Weights
import CardinalitySearch.Proofs.Problem.WellFormed
import CardinalitySearch.Proofs.SwapSet
import CardinalitySearch.Proofs.SwapSet.Calls
import CardinalitySearch.Expression.Sliced
import CardinalitySearch.Proofs.Satisfaction.Recount
import CardinalitySearch.Proofs.Satisfaction.Exact
import CardinalitySearch.Proofs.Search.Reachable
import CardinalitySearch.Proofs.Search.Soundness
import CardinalitySearch.Proofs.Satisfaction.Gain
import CardinalitySearch.Proofs.Satisfaction.Order
import CardinalitySearch.Proofs.Search.Walk
import CardinalitySearch.Proofs.Search.RandomWalk
import CardinalitySearch.Proofs.Search.PureClauses
import CardinalitySearch.Proofs.Expression.Grammar
import CardinalitySearch.Proofs.Expression.Adding
import CardinalitySearch.Proofs.Expression.Printing
import CardinalitySearch.Proofs.Problem.RoundTrip
import CardinalitySearch.Proofs.Problem.Lines
import CardinalitySearch.Fault
import CardinalitySearch.Arithmetic
import CardinalitySearch.Satisfaction.Guarded
import CardinalitySearch.Search.Guarded
import CardinalitySearch.Proofs.Satisfaction.Check
import CardinalitySearch.Proofs.Satisfaction.Disagreement
import CardinalitySearch.Proofs.Satisfaction.Guarded
import CardinalitySearch.Proofs.Search.Guarded
import CardinalitySearch.Proofs.Search.Flips
import CardinalitySearch.Proofs.Problem.Occurrences
import CardinalitySearch.Proofs.Problem.Numbering
import CardinalitySearch.Proofs.Search.Solving
import CardinalitySearch.Proofs.Problem.Mirror
import CardinalitySearch.Proofs.Search.Mirror
import CardinalitySearch.Proofs.Search.Simulation
import CardinalitySearch.Proofs.Problem.Values
import CardinalitySearch.Proofs.Search.Counters
import CardinalitySearch.Proofs.CommandLine.Answer
import CardinalitySearch.Proofs.Expression.Sliced
import CardinalitySearch.Proofs.Expression.Faults
import CardinalitySearch.Proofs.Search.Asking
import CardinalitySearch.Proofs.Search.NoiseLevel
import CardinalitySearch.Proofs.Search.Extremes
import CardinalitySearch.Proofs.Search.Ranges
import CardinalitySearch.Proofs.Search.Trees
import CardinalitySearch.Proofs.Problem.Words
import CardinalitySearch.Proofs.Satisfaction.Words
import CardinalitySearch.Proofs.Search.Words
import CardinalitySearch.Proofs.Problem.Copies
import CardinalitySearch.Proofs.Search.Copies
