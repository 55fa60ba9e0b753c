/-
CardinalitySearch.Random.Script — random choices that are fixed beforehand.

A script answers draws from two lists, one of numbers and one of truth values,
and keeps a history of what it answered.  With it a run of the search can be
forced into a chosen path and its draws can be looked at afterwards.
-/
import CardinalitySearch.Random.Source

namespace CardinalitySearch

/-- An answered draw. -/
inductive Draw where
  /-- A truth value. -/
  | coin (value : Bool)
  /-- A number below a bound. -/
  | number (bound value : Nat)
deriving DecidableEq

/-- A list of answers still to be given, and the answers given so far. -/
structure Script where
  /-- The numbers to come, each taken modulo the bound asked for. -/
  numbers : List Nat
  /-- The truth values to come. -/
  coins : List Bool
  /-- The answered draws, the latest one first. -/
  history : List Draw := []
deriving DecidableEq

namespace Script

/-- The answered draws in order. -/
def draws (s : Script) : List Draw :=
  s.history.reverse

/-- Takes the next truth value, false when there is none left. -/
def coin (s : Script) : Bool × Script :=
  let value := s.coins.headD false
  (value, { s with coins := s.coins.tail, history := .coin value :: s.history })

/-- Takes the next number modulo the bound, zero when there is none left. -/
def below (bound : Nat) (s : Script) : Nat × Script :=
  let value := s.numbers.headD 0 % bound
  (value, { s with numbers := s.numbers.tail, history := .number bound value :: s.history })

instance : InRangeSource Script where
  coin := coin
  below := below
  below_lt _ _ h := Nat.mod_lt _ h

end Script

end CardinalitySearch
