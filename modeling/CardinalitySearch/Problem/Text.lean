/-
CardinalitySearch.Problem.Text — problems as text.

A text holds one constraint per line.  A line is looked at without the blanks
at its ends; it is skipped when it is empty or starts with `#`.  Reading stops
at the first line that is refused.  Writing gives every constraint a line with
its range in front, whether or not it is a clause.
-/
import CardinalitySearch.Expression.Parser

namespace CardinalitySearch

/-- An error in a line of a text. -/
structure LineError where
  /-- The number of the line, counted from one; skipped lines count. -/
  line : Nat
  /-- What is wrong with it. -/
  cause : ExpressionError
deriving DecidableEq

/-- The wording of an error in a line. -/
def LineError.message (e : LineError) : String :=
  "line " ++ toString e.line ++ ": " ++ e.cause.message

/-- Whether a line without the blanks at its ends is skipped. -/
def isSkipped : List Char → Bool
  | [] => true
  | c :: _ => c = '#'

namespace Draft

/-- Reads the constraints on the lines, the first of which has number `number`. -/
def parseLines (d : Draft) (number : Nat) (lines : List (List Char))
    (A : Arithmetic := .unlimited) : Except LineError Draft :=
  match lines with
  | [] => .ok d
  | line :: rest =>
    let line := Text.trim line
    if isSkipped line then d.parseLines (number + 1) rest A
    else
      match d.parseExpression line A with
      | (.ok _, d) => d.parseLines (number + 1) rest A
      | (.error cause, _) => .error ⟨number, cause⟩

end Draft

namespace Problem

/-- Reads a problem. -/
def parse (text : String) (A : Arithmetic := .unlimited) : Except LineError Problem :=
  match ({} : Draft).parseLines 1 (Text.lines text.toList) A with
  | .ok d => .ok (d.build A)
  | .error e => .error e

/-- What is reported when a problem has been read. -/
def parseEvents (P : Problem) : List Event :=
  P.warnings ++ [.parsed P.constraintCount P.propositionCount]

/-- The literal with the name of its proposition. -/
def signedName (P : Problem) (l : Literal) : SignedName :=
  ⟨(P.name? l.proposition).getD "", l.positive⟩

/-- The expression of a constraint, with its range. -/
def expression (P : Problem) (c : Constraint) : Expression :=
  ⟨some (c.atLeast, c.atMost), c.literals.map P.signedName⟩

/-- The text of a problem, one line per constraint. -/
def text (P : Problem) : String :=
  String.join (P.constraints.toList.map fun c => (P.expression c).text ++ "\n")

end Problem

end CardinalitySearch
