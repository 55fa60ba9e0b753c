/-
CardinalitySearch.Literal — signed propositions.

Propositions are numbered from zero in the order in which their names are
first seen, so a proposition is its number.  A literal is a proposition
together with the truth value that makes the literal true; negation changes
that value and nothing else.
-/

namespace CardinalitySearch

/-- The display text of the proposition with this number. -/
def propositionText (proposition : Nat) : String :=
  "p" ++ toString proposition

/-- A proposition or its negation. -/
structure Literal where
  /-- The number of the proposition. -/
  proposition : Nat
  /-- Whether the literal is the proposition itself and not its negation. -/
  positive : Bool
deriving DecidableEq

namespace Literal

/-- The literal over the same proposition with the other polarity. -/
def negate (l : Literal) : Literal :=
  { l with positive := !l.positive }

/-- The truth value of the literal when its proposition has the given value. -/
def evaluate (l : Literal) (value : Bool) : Bool :=
  value == l.positive

/-- The display text: the proposition, after an exclamation mark when negated. -/
def text (l : Literal) : String :=
  (if l.positive then "" else "!") ++ propositionText l.proposition

@[simp] theorem negate_proposition (l : Literal) :
    l.negate.proposition = l.proposition := rfl

@[simp] theorem negate_positive (l : Literal) :
    l.negate.positive = !l.positive := rfl

@[simp] theorem negate_negate (l : Literal) : l.negate.negate = l := by
  cases l; simp [negate]

/-- A literal and its negation have opposite values. -/
theorem evaluate_negate (l : Literal) (value : Bool) :
    l.negate.evaluate value = !l.evaluate value := by
  cases l with
  | mk p positive => cases positive <;> cases value <;> rfl

/-- A literal is true exactly when its proposition has the literal's polarity. -/
theorem evaluate_eq_true_iff (l : Literal) (value : Bool) :
    l.evaluate value = true ↔ value = l.positive := by
  simp [evaluate]

end Literal

end CardinalitySearch
