/-
CardinalitySearch.Constraint — how many literals of a list may be true.

A constraint asks that the number of its true literals lies in a closed
range.  A clause is the constraint whose range starts at one and ends at its
number of literals.  Nothing here demands that the range is non-empty or that
it can be reached; a draft refuses the former and a problem warns of the
latter.
-/
import CardinalitySearch.Assignment

namespace CardinalitySearch

/-- The display text of the constraint with this number. -/
def constraintText (id : Nat) : String :=
  "c" ++ toString id

/-- A cardinality constraint. -/
structure Constraint where
  /-- Its position among the constraints of its problem. -/
  id : Nat
  /-- Its literals in the order given; a literal may be repeated. -/
  literals : List Literal
  /-- The least number of literals that must be true. -/
  atLeast : Nat
  /-- The greatest number of literals that may be true. -/
  atMost : Nat
deriving DecidableEq

namespace Constraint

/-- Whether `count` true literals satisfy the constraint. -/
def accepts (c : Constraint) (count : Nat) : Bool :=
  c.atLeast ≤ count && count ≤ c.atMost

/-- Whether the assignment satisfies the constraint, by a count of its literals. -/
def satisfiedBy (c : Constraint) (a : Assignment) : Bool :=
  c.accepts (a.countTrue c.literals)

/-- Whether the constraint has as many literals as it asks to be true. -/
def isReachable (c : Constraint) : Bool :=
  c.atLeast ≤ c.literals.length

theorem accepts_eq_true_iff (c : Constraint) (count : Nat) :
    c.accepts count = true ↔ c.atLeast ≤ count ∧ count ≤ c.atMost := by
  simp [accepts]

end Constraint

end CardinalitySearch
