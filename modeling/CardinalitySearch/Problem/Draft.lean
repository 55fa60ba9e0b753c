/-
CardinalitySearch.Problem.Draft — problems under construction.

A draft gives numbers to names and to constraints in the order in which they
come.  A name keeps the number it got when it was first seen.  A constraint is
refused when it has no literals, when its range is empty, or when one of its
literals is over a proposition that has no name yet; the first of these causes
is the one reported, and a refused constraint changes nothing.
-/
import CardinalitySearch.Problem.Basic

namespace CardinalitySearch

/-- Why a constraint is refused. -/
inductive ConstraintError where
  /-- It has no literals. -/
  | empty
  /-- Its range has no elements. -/
  | invertedRange (atLeast atMost : Nat)
  /-- A literal is over a proposition that does not exist. -/
  | unknownProposition (proposition : Nat)
deriving DecidableEq

/-- The wording of a refusal. -/
def ConstraintError.message : ConstraintError → String
  | .empty => "a constraint needs at least one literal"
  | .invertedRange atLeast atMost =>
    "the range [" ++ toString atLeast ++ ", " ++ toString atMost ++ "] is empty"
  | .unknownProposition proposition =>
    "there is no proposition " ++ propositionText proposition

/-- The names and constraints collected so far. -/
structure Draft where
  /-- The names of the propositions. -/
  names : Names := {}
  /-- The constraints in the order of their numbers. -/
  constraints : Array Constraint := #[]

namespace Draft

/-- The proposition with a name. -/
def proposition? (d : Draft) (name : String) : Option Nat :=
  d.names.number? name

/-- The proposition with a name, which gets the next number when it is new. -/
def intern (d : Draft) (name : String) : Nat × Draft :=
  let ⟨names, constraints⟩ := d
  let (p, names) := names.intern name
  (p, ⟨names, constraints⟩)

/-- What speaks against a constraint, if anything does. -/
def objection? (d : Draft) (literals : List Literal) (atLeast atMost : Nat) :
    Option ConstraintError :=
  if literals.isEmpty then some .empty
  else if atMost < atLeast then some (.invertedRange atLeast atMost)
  else
    (literals.find? fun l => d.names.size ≤ l.proposition).map fun l =>
      .unknownProposition l.proposition

/-- Appends a constraint with the next number. -/
def push (d : Draft) (literals : List Literal) (atLeast atMost : Nat) : Draft :=
  let ⟨names, constraints⟩ := d
  ⟨names, constraints.push ⟨constraints.size, literals, atLeast, atMost⟩⟩

/-- Adds a constraint if nothing speaks against it; gives its number. -/
def addConstraint (d : Draft) (literals : List Literal) (atLeast atMost : Nat) :
    Except ConstraintError Nat × Draft :=
  match d.objection? literals atLeast atMost with
  | some cause => (.error cause, d)
  | none => (.ok d.constraints.size, d.push literals atLeast atMost)

/-- Adds a clause: at least one of the literals must be true. -/
def addClause (d : Draft) (literals : List Literal) (A : Arithmetic := .unlimited) :
    Except ConstraintError Nat × Draft :=
  d.addConstraint literals 1 (A.unsigned literals.length)

/-- The problem with the names and constraints of the draft. -/
def build (d : Draft) (A : Arithmetic := .unlimited) : Problem :=
  Problem.ofConstraints d.names d.constraints A

/-- Interning changes the names only. -/
theorem intern_eq (d : Draft) (name : String) :
    d.intern name = ((d.names.intern name).1, { d with names := (d.names.intern name).2 }) :=
  rfl

/-- Appending a constraint changes the constraints only. -/
theorem push_eq (d : Draft) (literals : List Literal) (atLeast atMost : Nat) :
    d.push literals atLeast atMost =
      { d with
        constraints := d.constraints.push ⟨d.constraints.size, literals, atLeast, atMost⟩ } :=
  rfl

/-- A refused constraint changes nothing. -/
theorem addConstraint_eq_self {d : Draft} {literals : List Literal} {atLeast atMost : Nat}
    {cause : ConstraintError} (h : (d.addConstraint literals atLeast atMost).1 = .error cause) :
    (d.addConstraint literals atLeast atMost).2 = d := by
  unfold addConstraint at h ⊢
  split
  · rfl
  · next none => simp [none] at h

end Draft

end CardinalitySearch
