/-
CardinalitySearch.Stopping — when to give up.

A stop condition is asked before every step and may change with each
question: a budget of steps counts them, a budget of time reads a clock.
Conditions are combined in trees.  A tree puts the question to all of its
leaves every time, whatever the others answer, so that each leaf counts every
question.
-/

namespace CardinalitySearch

/-- A state that is asked again and again whether to stop. -/
class StopCondition (τ : Type) where
  /-- Asks once: the answer and the state afterwards. -/
  query : τ → Bool × τ

/-- The elementary stop conditions. -/
inductive Limit where
  /-- Never stops. -/
  | never
  /-- Stops once this many questions have been answered with no. -/
  | steps (remaining : Nat)
  /-- Stops once so many seconds have passed.  `clock k` is the number of
  milliseconds that have passed at question number `k`, and `asked` counts the
  questions. -/
  | time (seconds : Nat) (clock : Nat → Nat) (asked : Nat)
  /-- Gives these answers in turn, and no from then on. -/
  | script (answers : List Bool)

namespace Limit

/-- Asks an elementary condition once. -/
def query : Limit → Bool × Limit
  | .never => (false, .never)
  | .steps 0 => (true, .steps 0)
  | .steps (n + 1) => (false, .steps n)
  | .time seconds clock asked =>
    (decide (seconds * 1000 ≤ clock asked), .time seconds clock (asked + 1))
  | .script [] => (false, .script [])
  | .script (answer :: rest) => (answer, .script rest)

/-- A budget of time on a given clock, not asked yet. -/
def timeBudget (seconds : Nat) (clock : Nat → Nat) : Limit :=
  .time seconds clock 0

/-- The same condition with another clock, started anew; only a budget of time
looks at it. -/
def withClock (clock : Nat → Nat) : Limit → Limit
  | .time seconds _ _ => timeBudget seconds clock
  | limit => limit

instance : StopCondition Limit where
  query := query

end Limit

/-- A combination of stop conditions. -/
inductive StopTree (τ : Type) where
  /-- One condition. -/
  | leaf (condition : τ)
  /-- A condition that is not there; it never stops. -/
  | absent
  /-- Two combinations, either of which may stop. -/
  | both (left right : StopTree τ)

namespace StopTree

variable {τ : Type}

/-- The condition if there is one. -/
def ofOption : Option τ → StopTree τ
  | none => .absent
  | some condition => .leaf condition

/-- The tree with every condition changed by `f`. -/
def map {υ : Type} (f : τ → υ) : StopTree τ → StopTree υ
  | .leaf condition => .leaf (f condition)
  | .absent => .absent
  | .both left right => .both (left.map f) (right.map f)

/-- Asks every condition of the tree once; one yes is enough. -/
def query [StopCondition τ] : StopTree τ → Bool × StopTree τ
  | .leaf condition =>
    let (stop, condition) := StopCondition.query condition
    (stop, .leaf condition)
  | .absent => (false, .absent)
  | .both left right =>
    let (stopLeft, left) := left.query
    let (stopRight, right) := right.query
    (stopLeft || stopRight, .both left right)

instance [StopCondition τ] : StopCondition (StopTree τ) where
  query := query

end StopTree

end CardinalitySearch
