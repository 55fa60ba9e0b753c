/-
CardinalitySearch.SwapSet.Call — sequences of calls on a set.

Everything that can be asked of a set is a call, and a call has an answer
unless it is out of range: the key is not below the capacity, or no member
stands at the position.  A sequence has answers if each of its calls has one.
-/
import CardinalitySearch.SwapSet

namespace CardinalitySearch.SwapSet

/-- One call. -/
inductive Call where
  /-- Puts a key into the set. -/
  | insert (key : Nat)
  /-- Takes a key out of the set. -/
  | remove (key : Nat)
  /-- Asks whether a key is in the set. -/
  | contains (key : Nat)
  /-- Asks for the member at a position. -/
  | get (position : Nat)
deriving DecidableEq

/-- The answer to a call. -/
inductive Answer where
  /-- Whether the key has been inserted, has been removed, or is there. -/
  | flag (value : Bool)
  /-- The member. -/
  | member (key : Nat)
deriving DecidableEq

/-- Performs a call that is in range. -/
def perform? (s : SwapSet) : Call → Option (Answer × SwapSet)
  | .insert key => (s.insert? key).map fun (inserted, s) => (.flag inserted, s)
  | .remove key => (s.remove? key).map fun (removed, s) => (.flag removed, s)
  | .contains key => (s.contains? key).map fun present => (.flag present, s)
  | .get position => (s.get? position).map fun key => (.member key, s)

/-- Performs calls in order; gives the answers and the set at the end. -/
def performAll? (s : SwapSet) : List Call → Option (List Answer × SwapSet)
  | [] => some ([], s)
  | call :: rest => do
    let (answer, s) ← s.perform? call
    let (answers, s) ← s.performAll? rest
    return (answer :: answers, s)

end CardinalitySearch.SwapSet
