/-
CardinalitySearch.Names — names and their numbers.

Names are numbered from zero in the order in which they are first seen.  The
list of names gives the name of a number; a map from names gives the number of
a name without a search through the list.  The two agree, which is what
`Coherent` says: a name has number `p` exactly when it stands at position `p`.
-/
import Std.Data.TreeMap

namespace CardinalitySearch

/-- Distinct names, numbered in the order in which they were first seen. -/
structure Names where
  /-- The names in the order of their numbers. -/
  inOrder : Array String := #[]
  /-- The number of each name. -/
  numbers : Std.TreeMap String Nat := ∅

namespace Names

/-- The number of names. -/
def size (ns : Names) : Nat :=
  ns.inOrder.size

/-- The names in the order of their numbers. -/
def toList (ns : Names) : List String :=
  ns.inOrder.toList

/-- The name with a number. -/
def name? (ns : Names) (p : Nat) : Option String :=
  ns.inOrder[p]?

/-- The number of a name. -/
def number? (ns : Names) (name : String) : Option Nat :=
  ns.numbers[name]?

/-- The number of a name, which is the next one when the name is new. -/
def intern (ns : Names) (name : String) : Nat × Names :=
  match ns.number? name with
  | some p => (p, ns)
  | none =>
    let p := ns.size
    (p, { inOrder := ns.inOrder.push name, numbers := ns.numbers.insert name p })

/-- A name has a number exactly when it stands at that position. -/
def Coherent (ns : Names) : Prop :=
  ∀ (name : String) (p : Nat), ns.number? name = some p ↔ ns.name? p = some name

theorem coherent_empty : ({} : Names).Coherent := by
  intro name p
  simp [number?, name?]

/-- Interning a name that has a number changes nothing. -/
theorem intern_of_number?_eq_some {ns : Names} {name : String} {p : Nat}
    (h : ns.number? name = some p) : ns.intern name = (p, ns) := by
  simp [intern, h]

/-- Interning a new name appends it to the list and to the map. -/
theorem intern_of_number?_eq_none {ns : Names} {name : String}
    (h : ns.number? name = none) :
    ns.intern name =
      (ns.size, ⟨ns.inOrder.push name, ns.numbers.insert name ns.size⟩) := by
  simp [intern, h]

/-- The number that interning gives is the number of the name afterwards. -/
theorem number?_intern (ns : Names) (name : String) :
    (ns.intern name).2.number? name = some (ns.intern name).1 := by
  cases known : ns.number? name with
  | some p => rw [intern_of_number?_eq_some known]; exact known
  | none => rw [intern_of_number?_eq_none known]; simp [number?]

/-- Interning keeps the list and the map in agreement. -/
theorem Coherent.intern {ns : Names} (h : ns.Coherent) (name : String) :
    (ns.intern name).2.Coherent := by
  cases known : ns.number? name with
  | some p => rw [intern_of_number?_eq_some known]; exact h
  | none =>
    rw [intern_of_number?_eq_none known]
    intro other p
    have fresh : ns.name? p ≠ some name := fun e => by
      rw [← h name p, known] at e
      exact absurd e (by simp)
    have beyond : ns.name? ns.size = none := by simp [name?, size]
    have lookUp : (ns.numbers.insert name ns.size)[other]?
        = if name = other then some ns.size else ns.number? other := by
      rw [Std.TreeMap.getElem?_insert]
      simp [number?]
    have atPosition : (ns.inOrder.push name)[p]?
        = if p = ns.size then some name else ns.name? p := by
      rw [Array.getElem?_push]
      rfl
    show (ns.numbers.insert name ns.size)[other]? = some p
      ↔ (ns.inOrder.push name)[p]? = some other
    rw [lookUp, atPosition]
    by_cases same : name = other
    · subst same
      by_cases last : p = ns.size
      · simp [last]
      · simp [last, fresh, Ne.symm last]
    · by_cases last : p = ns.size
      · subst last
        simp [same, h other ns.size, beyond]
      · simp [same, last, h other p]

end Names

end CardinalitySearch
