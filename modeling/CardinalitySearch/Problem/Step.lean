/-
CardinalitySearch.Problem.Step — sequences of operations on a draft.

Everything that can be asked of a draft is a step, and every step has an
answer.  A problem is what a sequence of steps on the empty draft builds, so a
statement about all problems is one about all sequences.
-/
import CardinalitySearch.Expression.Parser

namespace CardinalitySearch

namespace Draft

/-- One operation on a draft. -/
inductive Step where
  /-- Gives a name its number. -/
  | intern (name : String)
  /-- Asks for the number of a name. -/
  | lookUp (name : String)
  /-- Adds a clause. -/
  | addClause (literals : List Literal)
  /-- Adds a constraint with a range. -/
  | addConstraint (literals : List Literal) (atLeast atMost : Nat)
  /-- Adds a written constraint. -/
  | parse (text : String)
deriving DecidableEq

/-- The answer to an operation. -/
inductive Answer where
  /-- The proposition of a name, if it has one. -/
  | proposition (p : Option Nat)
  /-- The number of the added constraint. -/
  | constraint (id : Nat)
  /-- The constraint is not added. -/
  | refused (cause : ExpressionError)
deriving DecidableEq

/-- The answer to an attempt to add a constraint. -/
def Answer.ofAttempt : Except ConstraintError Nat → Answer
  | .ok id => .constraint id
  | .error cause => .refused (.refused cause)

/-- Performs one operation. -/
def perform (d : Draft) (step : Step) (A : Arithmetic := .unlimited) : Answer × Draft :=
  match step with
  | .intern name =>
    let (p, d) := d.intern name
    (.proposition (some p), d)
  | .lookUp name => (.proposition (d.proposition? name), d)
  | .addClause literals =>
    let (attempt, d) := d.addClause literals A
    (.ofAttempt attempt, d)
  | .addConstraint literals atLeast atMost =>
    let (attempt, d) := d.addConstraint literals atLeast atMost
    (.ofAttempt attempt, d)
  | .parse text =>
    match d.parseExpression text.toList A with
    | (.ok id, d) => (.constraint id, d)
    | (.error cause, d) => (.refused cause, d)

/-- Performs operations in order; gives the answers and the draft at the end. -/
def performAll (d : Draft) (steps : List Step) (A : Arithmetic := .unlimited) :
    List Answer × Draft :=
  match steps with
  | [] => ([], d)
  | step :: rest =>
    let (answer, d) := d.perform step A
    let (answers, d) := d.performAll rest A
    (answer :: answers, d)

/-- The draft after a sequence of operations on the empty one. -/
def ofSteps (steps : List Step) (A : Arithmetic := .unlimited) : Draft :=
  (({} : Draft).performAll steps A).2

end Draft

end CardinalitySearch
