/-
CardinalitySearch.Fault — what must never happen in a search.

The functions of a search are total: one that needs an entry which is not there
goes on with a default.  Beside them stand guarded ones, which stop with a
fault instead.  A guarded function also checks what ought to hold on the way,
the more of it the higher its level, and takes no decision that the plain one
does not take.
-/

namespace CardinalitySearch

/-- How much is checked.  A level includes the levels below it. -/
inductive Level where
  /-- What costs next to nothing. -/
  | simple
  /-- Every change of a number of true literals. -/
  | moderate
  /-- Every flip, against the gain of flipping back. -/
  | advanced
  /-- Every flip, against a recount of all constraints. -/
  | extreme
deriving DecidableEq

/-- The place of a level among the levels. -/
def Level.rank : Level → Nat
  | .simple => 1
  | .moderate => 2
  | .advanced => 3
  | .extreme => 4

/-- A reason to stop. -/
inductive Fault where
  /-- There is not one value for each proposition to start at. -/
  | wrongLength
  /-- A proposition has no value. -/
  | noValue (proposition : Nat)
  /-- A proposition has no lists of occurrences. -/
  | noOccurrences (proposition : Nat)
  /-- There is no constraint of that number. -/
  | noConstraint (constraint : Nat)
  /-- A constraint has no number of true literals. -/
  | noCount (constraint : Nat)
  /-- A set cannot hold such a key. -/
  | noKey (key : Nat)
  /-- A set has no member at a position. -/
  | noMember (position : Nat)
  /-- A constraint has no literal at an index. -/
  | noLiteral (index : Nat)
  /-- A constraint has no literals to choose from. -/
  | noLiterals
  /-- A number is to be drawn from an empty range. -/
  | emptyRange
  /-- The constraint that was picked is satisfied. -/
  | satisfied (constraint : Nat)
  /-- A number of true literals cannot change so. -/
  | impossibleChange (count : Nat) (change : Int)
  /-- Flipping a proposition back would not undo what the flip improved. -/
  | notUndone (proposition : Nat) (improvement : Int)
  /-- After a flip a recount finds something else than the state says. -/
  | inconsistent (proposition : Nat)
deriving DecidableEq

namespace Fault

/-- An entry that must be there. -/
def entry {α : Type} (fault : Fault) : Option α → Except Fault α
  | some a => .ok a
  | none => .error fault

/-- A condition that must hold. -/
def require (fault : Fault) (condition : Bool) : Except Fault Unit :=
  if condition then .ok () else .error fault

@[simp] theorem entry_some {α : Type} (fault : Fault) (a : α) : fault.entry (some a) = .ok a :=
  rfl

@[simp] theorem require_true (fault : Fault) : fault.require true = .ok () :=
  rfl

@[simp] theorem ok_bind {α β : Type} (a : α) (f : α → Except Fault β) :
    (Except.ok a >>= f) = f a :=
  rfl

@[simp] theorem pure_eq_ok {α : Type} (a : α) : (pure a : Except Fault α) = .ok a :=
  rfl

end Fault

/-- A condition that must hold from level `least` on; below that it is not looked at. -/
def Level.demand (level least : Level) (fault : Fault) (condition : Except Fault Bool) :
    Except Fault Unit :=
  if least.rank ≤ level.rank then condition.bind fault.require else .ok ()

@[simp] theorem Level.demand_true (level least : Level) (fault : Fault) :
    level.demand least fault (.ok true) = .ok () := by
  unfold Level.demand
  split <;> rfl

/-- A condition that is looked at and does not hold. -/
theorem Level.demand_false {level least : Level} (strict : least.rank ≤ level.rank)
    (fault : Fault) : level.demand least fault (.ok false) = .error fault := by
  rw [Level.demand, if_pos strict]
  rfl

end CardinalitySearch
