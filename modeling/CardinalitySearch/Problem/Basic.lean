/-
CardinalitySearch.Problem.Basic — named propositions under constraints.

A problem is the part of a search that never changes: the names of the
propositions, the constraints, and for each proposition the constraints it
occurs in.  It also says how the numbers of a search are kept.

Both numberings are dense: a proposition's number is the position of its name, a
constraint's number its position among the constraints.
-/
import CardinalitySearch.Event
import CardinalitySearch.Names
import CardinalitySearch.Problem.Occurrences

namespace CardinalitySearch

/-- A list of cardinality constraints over named propositions. -/
structure Problem where
  /-- The names of the propositions. -/
  names : Names
  /-- The constraints in the order of their numbers. -/
  constraints : Array Constraint
  /-- For each proposition where it occurs. -/
  occurrences : Array Occurrences
  /-- How the numbers of a search are kept. -/
  arithmetic : Arithmetic

namespace Problem

/-- The problem with these names and constraints. -/
def ofConstraints (names : Names) (constraints : Array Constraint)
    (A : Arithmetic := .unlimited) : Problem where
  names := names
  constraints := constraints
  occurrences := Occurrences.index names.size constraints.toList A
  arithmetic := A

/-- The same problem with its numbers in words. -/
def inWords (P : Problem) : Problem :=
  ofConstraints P.names P.constraints .words

/-- The number of propositions. -/
def propositionCount (P : Problem) : Nat :=
  P.names.size

/-- The number of constraints. -/
def constraintCount (P : Problem) : Nat :=
  P.constraints.size

/-- The name of a proposition. -/
def name? (P : Problem) (p : Nat) : Option String :=
  P.names.name? p

/-- The proposition with a name. -/
def proposition? (P : Problem) (name : String) : Option Nat :=
  P.names.number? name

/-- The constraint with a number. -/
def constraint? (P : Problem) (c : Nat) : Option Constraint :=
  P.constraints[c]?

/-- Where a proposition occurs; nowhere if there is no such proposition. -/
def occurrencesOf (P : Problem) (p : Nat) : Occurrences :=
  P.occurrences.getD p {}

/-- Whether a number of true literals satisfies constraint number `c`.  A
constraint that does not exist asks for nothing. -/
def accepts (P : Problem) (c count : Nat) : Bool :=
  match P.constraint? c with
  | some constraint => constraint.accepts count
  | none => true

/-- The number of true literals of a constraint, by counting anew, as it is kept. -/
def counted (P : Problem) (a : Assignment) (c : Constraint) : Nat :=
  P.arithmetic.unsigned (a.countTrue c.literals)

/-- Whether an assignment satisfies every constraint, by counting anew. -/
def satisfiedBy (P : Problem) (a : Assignment) : Bool :=
  P.constraints.toList.all (·.satisfiedBy a)

/-- The numbers of the constraints an assignment violates, in order, by
counting anew. -/
def violatedBy (P : Problem) (a : Assignment) : List Nat :=
  (P.constraints.toList.filter fun c => !c.satisfiedBy a).map (·.id)

/-- What a problem is warned about: each constraint whose range cannot be
reached, in order, and the lack of any constraint. -/
def warnings (P : Problem) : List Event :=
  ((P.constraints.toList.filter fun c => !c.isReachable).map fun c =>
      .unreachableRange c.id c.atLeast c.literals.length)
    ++ if P.constraints.isEmpty then [.noConstraints] else []

end Problem

end CardinalitySearch
