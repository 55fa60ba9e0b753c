/-
CardinalitySearch.Satisfaction.Guarded — flips that stop at a fault.

Every entry that a flip or a gain looks up has to be there: the value of the
proposition, its occurrences, the constraint of an occurrence and its count,
and its key in the violated set.  At the start every literal needs a value and
every constraint a place for its count.  From the moderate level on every count is
checked before it changes, and from the advanced level on the gain of flipping
back is computed after every flip.
-/
import CardinalitySearch.Fault
import CardinalitySearch.Satisfaction.Basic

namespace CardinalitySearch

namespace SwapSet

/-- `insert` for a key below the capacity. -/
def insertGuarded (s : SwapSet) (key : Nat) : Except Fault SwapSet := do
  Fault.require (.noKey key) (key < s.capacity)
  return s.insert key

/-- `remove` for a key below the capacity.  The position of a member is one of the
members, and the member that moves there has a position to change. -/
def removeGuarded (s : SwapSet) (key : Nat) : Except Fault SwapSet := do
  Fault.require (.noKey key) (key < s.capacity)
  match s.position? key with
  | none => return s
  | some position =>
    let last ← Fault.entry (.noMember position)
      (if position < s.size then s.members.back? else none)
    Fault.require (.noKey last) (last < s.capacity)
    return s.remove key

end SwapSet

/-- Whether the number of true literals of a constraint can change so: it neither
falls below zero nor exceeds the number of literals. -/
def Constraint.allows (c : Constraint) (count : Nat) (change : Int) : Bool :=
  0 ≤ count + change && count + change ≤ c.literals.length

/-- `countTrue` for literals that have values. -/
def Assignment.countTrueGuarded (a : Assignment) (ls : List Literal) : Except Fault Nat := do
  let values ← ls.mapM fun l => Fault.entry (.noValue l.proposition) (a.holds? l)
  return values.count true

namespace Satisfaction

/-- `ofAssignment` for an assignment of the propositions of the problem. -/
def ofAssignmentGuarded (P : Problem) (a : Assignment) : Except Fault Satisfaction := do
  let counts ← P.constraints.toList.mapM fun c => do
    Fault.require (.noCount c.id) (c.id < P.constraintCount)
    return P.arithmetic.unsigned (← a.countTrueGuarded c.literals)
  let violated ←
    ((P.constraints.toList.filter fun c => !c.accepts (P.counted a c)).map (·.id)).foldlM
      SwapSet.insertGuarded (SwapSet.empty P.constraintCount)
  return ⟨a, counts.toArray, violated, none⟩

/-- `isSatisfied` for a constraint of the problem. -/
def isSatisfiedGuarded (s : Satisfaction) (P : Problem) (i : Nat) : Except Fault Bool := do
  let c ← Fault.entry (.noConstraint i) (P.constraint? i)
  let count ← Fault.entry (.noCount i) (s.count? i)
  return c.accepts count

/-- The number of true literals after a change, and whether the constraint accepts
the number before it and the number after it. -/
def changeGuarded (level : Level) (P : Problem) (value : Bool) (s : Satisfaction)
    (o : WeightedOccurrence) : Except Fault (Nat × Bool × Bool) := do
  let c ← Fault.entry (.noConstraint o.constraint) (P.constraint? o.constraint)
  let count ← Fault.entry (.noCount o.constraint) (s.count? o.constraint)
  let change := o.change value P.arithmetic
  level.demand .moderate (.impossibleChange count change) (.ok (c.allows count change))
  let after := P.arithmetic.adjust count change
  return (after, c.accepts count, c.accepts after)

/-- `visit` for an occurrence in a constraint of the problem. -/
def visitGuarded (level : Level) (P : Problem) (value : Bool) (s : Satisfaction)
    (o : WeightedOccurrence) : Except Fault Satisfaction := do
  let (count, _, accepted) ← s.changeGuarded level P value o
  let violated ←
    if accepted then s.violated.removeGuarded o.constraint
    else s.violated.insertGuarded o.constraint
  return { s with counts := s.counts.setIfInBounds o.constraint count, violated := violated }

/-- `gainAt` for an occurrence in a constraint of the problem. -/
def gainAtGuarded (level : Level) (P : Problem) (value : Bool) (s : Satisfaction)
    (o : WeightedOccurrence) : Except Fault Int := do
  let (_, before, after) ← s.changeGuarded level P value o
  return P.arithmetic.sub (indicator after) (indicator before)

/-- `gain` for a proposition of the problem. -/
def gainGuarded (level : Level) (s : Satisfaction) (P : Problem) (p : Nat) : Except Fault Int := do
  let value ← Fault.entry (.noValue p) (s.assignment.value? p)
  let occurrences ← Fault.entry (.noOccurrences p) P.occurrences[p]?
  let gains ← occurrences.weighted.toList.mapM (s.gainAtGuarded level P !value)
  return gains.foldl P.arithmetic.add 0

/-- `flip` for a proposition of the problem. -/
def flipGuarded (level : Level) (s : Satisfaction) (P : Problem) (p : Nat) :
    Except Fault Satisfaction := do
  let value ← Fault.entry (.noValue p) (s.assignment.value? p)
  let occurrences ← Fault.entry (.noOccurrences p) P.occurrences[p]?
  let visited ← occurrences.weighted.toList.foldlM (visitGuarded level P !value)
    { s with assignment := s.assignment.toggle p }
  let flipped := record P.arithmetic ⟨p, !value⟩ s.violatedCount visited
  let improvement := P.arithmetic.sub s.violatedCount flipped.violatedCount
  level.demand .advanced (.notUndone p improvement)
    ((flipped.gainGuarded level P p).map fun back => back == P.arithmetic.neg improvement)
  return flipped

end Satisfaction

end CardinalitySearch
