/-
CardinalitySearch.Expression.Basic — a constraint as it is written.

An expression is a list of signed names, optionally with a range in front.
Without a range it stands for a clause.  Adding an expression to a draft
numbers its names in order of appearance and then adds the constraint; the
names stay even if the draft refuses the constraint.
-/
import CardinalitySearch.Problem.Draft

namespace CardinalitySearch

/-- A name or its negation. -/
structure SignedName where
  /-- The name of the proposition. -/
  name : String
  /-- Whether it stands for the proposition itself. -/
  positive : Bool
deriving DecidableEq

/-- A written constraint. -/
structure Expression where
  /-- The least and greatest number of true literals, if given. -/
  range : Option (Nat × Nat)
  /-- The literals in the order written. -/
  literals : List SignedName
deriving DecidableEq

/-- Why an expression is refused.  Positions are byte offsets. -/
inductive ExpressionError where
  /-- What stands in brackets is not a range, or the brackets are not closed. -/
  | malformedRange (range : String)
  /-- There are no literals. -/
  | empty
  /-- Nothing stands between two bars, or between a bar and the end; the
  position is where the empty place starts. -/
  | missingLiteral (position : Nat)
  /-- A place holds negations only; the position is that of the first one. -/
  | danglingNegation (position : Nat)
  /-- What should be a name holds a blank or a reserved character. -/
  | invalidName (name : String)
  /-- It is well-formed, but its constraint is refused. -/
  | refused (cause : ConstraintError)
deriving DecidableEq

/-- The wording of an error. -/
def ExpressionError.message : ExpressionError → String
  | .malformedRange range =>
    "malformed cardinality range '" ++ range ++ "', expected '[min,max]'"
  | .empty => "the expression contains no literals"
  | .missingLiteral position =>
    "expected a literal before or after '|' at position " ++ toString position
  | .danglingNegation position =>
    "negation without a proposition at position " ++ toString position
  | .invalidName name => "'" ++ name ++ "' is not a valid proposition name"
  | .refused cause => cause.message

namespace SignedName

/-- The written form: the name, after an exclamation mark when negated. -/
def text (s : SignedName) : String :=
  if s.positive then s.name else "!" ++ s.name

end SignedName

namespace Expression

/-- The written form, with the range in front if there is one and the literals
separated by bars. -/
def text (e : Expression) : String :=
  let literals := " | ".intercalate (e.literals.map (·.text))
  match e.range with
  | none => literals
  | some (atLeast, atMost) =>
    "[" ++ toString atLeast ++ "," ++ toString atMost ++ "] " ++ literals

/-- The range, which without one in front is that of a clause. -/
def bounds (e : Expression) (A : Arithmetic := .unlimited) : Nat × Nat :=
  e.range.getD (1, A.unsigned e.literals.length)

end Expression

namespace Draft

/-- Interns the names from left to right; gives the literals over them. -/
def internLiterals (d : Draft) : List SignedName → List Literal × Draft
  | [] => ([], d)
  | s :: rest =>
    let (p, d) := d.intern s.name
    let (literals, d) := d.internLiterals rest
    (⟨p, s.positive⟩ :: literals, d)

/-- Adds the constraint of an expression; gives its number, or the reason for
which the draft refuses it. -/
def addExpression (d : Draft) (e : Expression) (A : Arithmetic := .unlimited) :
    Except ConstraintError Nat × Draft :=
  let (literals, d) := d.internLiterals e.literals
  d.addConstraint literals (e.bounds A).1 (e.bounds A).2

end Draft

end CardinalitySearch
