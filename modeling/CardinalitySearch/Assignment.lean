/-
CardinalitySearch.Assignment — truth assignments and what is true under them.

An assignment holds one value per proposition, at the proposition's number.
The plain queries read a missing value as false, so that they are total;
the queries ending in `?` tell a missing value apart.  On the propositions of
the assignment the two agree.
-/
import CardinalitySearch.Literal

namespace CardinalitySearch

/-- A truth value for each proposition below some number. -/
structure Assignment where
  /-- The values, indexed by proposition. -/
  values : Array Bool
deriving DecidableEq

namespace Assignment

/-- The assignment of `n` propositions in which each is false. -/
def allFalse (n : Nat) : Assignment :=
  ⟨Array.replicate n false⟩

/-- The number of propositions that have a value. -/
def size (a : Assignment) : Nat :=
  a.values.size

/-- The value of a proposition, or `none` when it has none. -/
def value? (a : Assignment) (p : Nat) : Option Bool :=
  a.values[p]?

/-- The value of a proposition; false when it has none. -/
def value (a : Assignment) (p : Nat) : Bool :=
  (a.value? p).getD false

/-- The assignment that differs from `a` in the value of `p` only. -/
def toggle (a : Assignment) (p : Nat) : Assignment :=
  ⟨a.values.modify p (!·)⟩

/-- The truth value of a literal, or `none` when its proposition has none. -/
def holds? (a : Assignment) (l : Literal) : Option Bool :=
  (a.value? l.proposition).map l.evaluate

/-- Whether a literal is true. -/
def holds (a : Assignment) (l : Literal) : Bool :=
  l.evaluate (a.value l.proposition)

/-- The number of true literals of a list, repeated literals counted each time. -/
def countTrue (a : Assignment) (ls : List Literal) : Nat :=
  ls.countP a.holds

/-- The number of true literals, or `none` when a proposition has no value. -/
def countTrue? (a : Assignment) (ls : List Literal) : Option Nat :=
  if ls.all (·.proposition < a.size) then some (a.countTrue ls) else none

@[simp] theorem size_toggle (a : Assignment) (p : Nat) :
    (a.toggle p).size = a.size := by
  simp [toggle, size]

theorem value?_toggle (a : Assignment) (p q : Nat) :
    (a.toggle p).value? q = if p = q then (a.value? q).map (!·) else a.value? q := by
  simp [toggle, value?, Array.getElem?_modify]

/-- Toggling an existing proposition negates its value and keeps all others. -/
theorem value_toggle (a : Assignment) {p : Nat} (h : p < a.size) (q : Nat) :
    (a.toggle p).value q = if p = q then !a.value q else a.value q := by
  unfold value
  rw [value?_toggle]
  split
  · next e =>
    subst e
    have h' : p < a.values.size := h
    simp [value?, h']
  · rfl

/-- On the propositions of the assignment the two ways to ask agree. -/
theorem holds?_eq_some (a : Assignment) {l : Literal} (h : l.proposition < a.size) :
    a.holds? l = some (a.holds l) := by
  have h' : l.proposition < a.values.size := h
  simp [holds?, holds, value, value?, h']

end Assignment

end CardinalitySearch
