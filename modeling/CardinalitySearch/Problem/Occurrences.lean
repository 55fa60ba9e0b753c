/-
CardinalitySearch.Problem.Occurrences — where a proposition occurs.

For each proposition three lists of constraints, each in increasing order: the
constraints with a positive occurrence, those with a negative occurrence, and
those in which the two kinds do not cancel out, with the difference of their
numbers as a weight.  The weight is by how much the number of true literals
changes when the proposition becomes true, which is all that a flip needs to
know.

Occurrences are added constraint by constraint, so a constraint that is in a
list already is its last entry.
-/
import CardinalitySearch.Arithmetic
import CardinalitySearch.Constraint

namespace CardinalitySearch

/-- A constraint in which the occurrences of a proposition do not cancel out. -/
structure WeightedOccurrence where
  /-- The number of the constraint. -/
  constraint : Nat
  /-- The number of positive less the number of negative occurrences. -/
  weight : Int
deriving DecidableEq

/-- How the number of true literals changes when the proposition gets `value`. -/
def WeightedOccurrence.change (o : WeightedOccurrence) (value : Bool)
    (A : Arithmetic := .unlimited) : Int :=
  if value then o.weight else A.neg o.weight

/-- The constraints in which one proposition occurs. -/
structure Occurrences where
  /-- The constraints with a positive occurrence. -/
  positive : Array Nat := #[]
  /-- The constraints with a negative occurrence. -/
  negative : Array Nat := #[]
  /-- The constraints whose occurrences do not cancel out. -/
  weighted : Array WeightedOccurrence := #[]
deriving DecidableEq

namespace Occurrences

/-- Appends a constraint unless it is the last entry. -/
def pushNew (constraints : Array Nat) (constraint : Nat) : Array Nat :=
  if constraints.back? = some constraint then constraints else constraints.push constraint

/-- Adds to the weight of a constraint, which is the last entry if it has one.
An entry whose weight becomes zero is dropped. -/
def addWeight (A : Arithmetic) (entries : Array WeightedOccurrence) (constraint : Nat)
    (weight : Int) : Array WeightedOccurrence :=
  match entries.back? with
  | some last =>
    if last.constraint = constraint then
      if A.add last.weight weight = 0 then entries.pop
      else entries.pop.push ⟨constraint, A.add last.weight weight⟩
    else entries.push ⟨constraint, weight⟩
  | none => entries.push ⟨constraint, weight⟩

/-- Records one occurrence in a constraint. -/
def add (A : Arithmetic) (o : Occurrences) (constraint : Nat) (isPositive : Bool) :
    Occurrences :=
  let ⟨positive, negative, weighted⟩ := o
  if isPositive then
    ⟨pushNew positive constraint, negative, addWeight A weighted constraint 1⟩
  else
    ⟨positive, pushNew negative constraint, addWeight A weighted constraint (-1)⟩

/-- Records the literals of a constraint in the table of all propositions. -/
def addConstraint (A : Arithmetic) (table : Array Occurrences) (c : Constraint) :
    Array Occurrences :=
  c.literals.foldl
    (fun table l => table.modify l.proposition fun o => o.add A c.id l.positive) table

/-- The table for `n` propositions, indexed by proposition. -/
def index (n : Nat) (constraints : List Constraint) (A : Arithmetic := .unlimited) :
    Array Occurrences :=
  constraints.foldl (addConstraint A) (Array.replicate n {})

end Occurrences

end CardinalitySearch
