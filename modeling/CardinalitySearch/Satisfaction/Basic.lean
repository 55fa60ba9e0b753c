/-
CardinalitySearch.Satisfaction.Basic — an assignment with its consequences.

Beside the assignment a state keeps, for every constraint, the number of its
true literals, and the set of the constraints whose number lies outside their
range.  A flip visits only the constraints whose number changes.  What a flip
would gain is read off the same numbers without changing them.
-/
import CardinalitySearch.Problem.Basic
import CardinalitySearch.SwapSet

namespace CardinalitySearch

/-- A flip that was made. -/
structure Flip where
  /-- The literal that became true. -/
  literal : Literal
  /-- By how much the number of violated constraints fell. -/
  improvement : Int
deriving DecidableEq

/-- An assignment with the state of every constraint under it. -/
structure Satisfaction where
  /-- The current assignment. -/
  assignment : Assignment
  /-- The number of true literals of each constraint. -/
  counts : Array Nat
  /-- The constraints whose number is outside their range. -/
  violated : SwapSet
  /-- The latest flip, if there was one. -/
  lastFlip : Option Flip
deriving DecidableEq

namespace Satisfaction

/-- The state of an assignment, by counting every constraint once. -/
def ofAssignment (P : Problem) (a : Assignment) : Satisfaction where
  assignment := a
  counts := (P.constraints.toList.map (P.counted a)).toArray
  violated :=
    ((P.constraints.toList.filter fun c => !c.accepts (P.counted a c)).map (·.id)).foldl
      SwapSet.insert (SwapSet.empty P.constraintCount)
  lastFlip := none

/-- The number of true literals of a constraint. -/
def count? (s : Satisfaction) (c : Nat) : Option Nat :=
  s.counts[c]?

/-- The number of true literals of a constraint; zero if there is none. -/
def count (s : Satisfaction) (c : Nat) : Nat :=
  (s.count? c).getD 0

/-- Whether the number of true literals of a constraint is in its range. -/
def isSatisfied (s : Satisfaction) (P : Problem) (c : Nat) : Bool :=
  P.accepts c (s.count c)

/-- Whether no constraint is violated. -/
def isSolved (s : Satisfaction) : Bool :=
  s.violated.isEmpty

/-- The number of violated constraints. -/
def violatedCount (s : Satisfaction) : Nat :=
  s.violated.size

/-- The number of true literals of the constraint of an occurrence once the
proposition has got `value`. -/
def countAfter (s : Satisfaction) (P : Problem) (value : Bool) (o : WeightedOccurrence) : Nat :=
  P.arithmetic.adjust (s.count o.constraint) (o.change value P.arithmetic)

/-- Brings the constraint of an occurrence up to date after its proposition has
got `value`. -/
def visit (P : Problem) (value : Bool) (s : Satisfaction) (o : WeightedOccurrence) :
    Satisfaction :=
  let count := s.countAfter P value o
  let ⟨assignment, counts, violated, lastFlip⟩ := s
  let violated :=
    if P.accepts o.constraint count then violated.remove o.constraint
    else violated.insert o.constraint
  ⟨assignment, counts.setIfInBounds o.constraint count, violated, lastFlip⟩

/-- Records a flip after which `after` is the state, with the number of violated
constraints before it. -/
@[noinline]
def record (A : Arithmetic) (l : Literal) (before : Nat) (after : Satisfaction) : Satisfaction :=
  { after with lastFlip := some ⟨l, A.sub before after.violatedCount⟩ }

/-- Toggles a proposition and brings the constraints it occurs in up to date,
in order. -/
def flip (s : Satisfaction) (P : Problem) (p : Nat) : Satisfaction :=
  let ⟨assignment, counts, violated, lastFlip⟩ := s
  let before := violated.size
  let assignment := assignment.toggle p
  let value := assignment.value p
  record P.arithmetic ⟨p, value⟩ before
    ((P.occurrencesOf p).weighted.toList.foldl (visit P value)
      ⟨assignment, counts, violated, lastFlip⟩)

/-- One for true and zero for false. -/
def indicator (b : Bool) : Int :=
  if b then 1 else 0

/-- What the constraint of an occurrence contributes to the gain of giving the
proposition `value`: one if it becomes satisfied, minus one if it ceases to be. -/
def gainAt (s : Satisfaction) (P : Problem) (value : Bool) (o : WeightedOccurrence) : Int :=
  P.arithmetic.sub (indicator (P.accepts o.constraint (s.countAfter P value o)))
    (indicator (s.isSatisfied P o.constraint))

/-- What the constraints of some occurrences contribute, summed up from left to right. -/
def gainOf (s : Satisfaction) (P : Problem) (value : Bool) (os : List WeightedOccurrence) : Int :=
  os.foldl (fun sum o => P.arithmetic.add sum (s.gainAt P value o)) 0

/-- By how much a flip of the proposition would lower the number of violated
constraints. -/
def gain (s : Satisfaction) (P : Problem) (p : Nat) : Int :=
  s.gainOf P (!s.assignment.value p) (P.occurrencesOf p).weighted.toList

/-- A visit changes one number and the membership of one constraint. -/
theorem visit_eq (P : Problem) (value : Bool) (s : Satisfaction) (o : WeightedOccurrence) :
    visit P value s o =
      { s with
        counts := s.counts.setIfInBounds o.constraint (s.countAfter P value o)
        violated :=
          if P.accepts o.constraint (s.countAfter P value o) then
            s.violated.remove o.constraint
          else s.violated.insert o.constraint } :=
  rfl

/-- A flip toggles the proposition, visits the constraints it occurs in, and
records itself. -/
theorem flip_eq (s : Satisfaction) (P : Problem) (p : Nat) :
    s.flip P p =
      let value := (s.assignment.toggle p).value p
      record P.arithmetic ⟨p, value⟩ s.violatedCount
        ((P.occurrencesOf p).weighted.toList.foldl (visit P value)
          { s with assignment := s.assignment.toggle p }) :=
  rfl

end Satisfaction

end CardinalitySearch
