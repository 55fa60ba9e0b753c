/-
CardinalitySearch.Event — what is reported while a problem is read and searched.

An event records a fact with its numbers; its level and its wording are fixed
here and nowhere else.
-/
import CardinalitySearch.Constraint

namespace CardinalitySearch

/-- A reported fact. -/
inductive Event where
  /-- A constraint asks for more true literals than it has. -/
  | unreachableRange (constraint atLeast literals : Nat)
  /-- A problem has no constraints. -/
  | noConstraints
  /-- A problem was read from text. -/
  | parsed (constraints propositions : Nat)
  /-- A search was set up. -/
  | started (propositions constraints violated : Nat)
  /-- A search ended with every constraint satisfied. -/
  | solved (steps : Nat)
  /-- A search was told to stop. -/
  | stopped (steps violated : Nat)
  /-- A cached count differs from a recount. -/
  | staleCount (constraint cached actual : Nat)
  /-- A constraint is wrongly in, or wrongly missing from, the violated set. -/
  | wrongMembership (constraint : Nat)
deriving DecidableEq

namespace Event

/-- How much an event matters. -/
def level : Event → String
  | .unreachableRange .. | .noConstraints | .staleCount .. | .wrongMembership .. => "WARN"
  | .parsed .. | .started .. => "DEBUG"
  | .solved .. | .stopped .. => "INFO"

/-- The wording of an event. -/
def message : Event → String
  | .unreachableRange constraint atLeast literals =>
    "Constraint " ++ constraintText constraint ++ " requires at least " ++ toString atLeast
      ++ " true literals but only has " ++ toString literals
  | .noConstraints => "The problem does not contain any constraints"
  | .parsed constraints propositions =>
    "Parsed " ++ toString constraints ++ " constraints over " ++ toString propositions
      ++ " propositions"
  | .started propositions constraints violated =>
    "Created a solver with " ++ toString propositions ++ " propositions and "
      ++ toString constraints ++ " constraints, " ++ toString violated
      ++ " of which are unsatisfied initially"
  | .solved steps => "Found a solution after " ++ toString steps ++ " steps"
  | .stopped steps violated =>
    "Stopped after " ++ toString steps ++ " steps with " ++ toString violated
      ++ " unsatisfied constraints"
  | .staleCount constraint cached actual =>
    "Constraint " ++ constraintText constraint ++ " has a stale true literal count: cached "
      ++ toString cached ++ ", actual " ++ toString actual
  | .wrongMembership constraint =>
    "Constraint " ++ constraintText constraint
      ++ " has the wrong membership in the unsatisfied set"

/-- The line of the event in a log. -/
def text (e : Event) : String :=
  e.level ++ " " ++ e.message

end Event

end CardinalitySearch
