/-
CardinalitySearch.SwapSet — sets of small numbers with access by position.

A set over the keys below a fixed capacity, with insertion, removal,
membership and access by position in constant time.  The order of the members
is part of what a caller sees, since it decides which member a random position
selects: insertion appends, and removal moves the last member into the hole.

Keys at or above the capacity are never members.  The operations ending in `?`
refuse such a key.

The members and the positions are two views of the same order, and `Coherent`
says that they agree.  Every operation keeps that; under it the members are
distinct and below the capacity.
-/

namespace CardinalitySearch

/-- A set of keys below a capacity, in an order fixed by its history. -/
structure SwapSet where
  /-- The members in order. -/
  members : Array Nat
  /-- For each key its position among the members, or `none` when absent. -/
  positions : Array (Option Nat)
deriving DecidableEq

namespace SwapSet

/-- The set without members over the keys below `capacity`. -/
def empty (capacity : Nat) : SwapSet :=
  ⟨#[], Array.replicate capacity none⟩

/-- The bound below which all keys lie. -/
def capacity (s : SwapSet) : Nat :=
  s.positions.size

/-- The number of members. -/
def size (s : SwapSet) : Nat :=
  s.members.size

/-- Whether there are no members. -/
def isEmpty (s : SwapSet) : Bool :=
  s.members.isEmpty

/-- The members in order. -/
def toList (s : SwapSet) : List Nat :=
  s.members.toList

/-- The position of a key among the members. -/
def position? (s : SwapSet) (key : Nat) : Option Nat :=
  s.positions.getD key none

/-- Whether a key is a member. -/
def contains (s : SwapSet) (key : Nat) : Bool :=
  (s.position? key).isSome

/-- The member at a position. -/
def get? (s : SwapSet) (position : Nat) : Option Nat :=
  s.members[position]?

/-- Appends an absent key below the capacity; any other key changes nothing. -/
def insert (s : SwapSet) (key : Nat) : SwapSet :=
  if key < s.capacity && !s.contains key then
    let ⟨members, positions⟩ := s
    let position := members.size
    ⟨members.push key, positions.setIfInBounds key (some position)⟩
  else s

/-- Moves the last member into the place of a member; an absent key changes
nothing. -/
def remove (s : SwapSet) (key : Nat) : SwapSet :=
  match s.position? key, s.members.back? with
  | some position, some last =>
    let ⟨members, positions⟩ := s
    ⟨(members.setIfInBounds position last).pop,
      (positions.setIfInBounds last (some position)).setIfInBounds key none⟩
  | _, _ => s

/-- `contains` for a key below the capacity. -/
def contains? (s : SwapSet) (key : Nat) : Option Bool :=
  if key < s.capacity then some (s.contains key) else none

/-- `insert` for a key below the capacity, and whether the key was absent. -/
def insert? (s : SwapSet) (key : Nat) : Option (Bool × SwapSet) :=
  (s.contains? key).map fun present => (!present, s.insert key)

/-- `remove` for a key below the capacity, and whether the key was present. -/
def remove? (s : SwapSet) (key : Nat) : Option (Bool × SwapSet) :=
  (s.contains? key).map fun present => (present, s.remove key)

/-- A key has a position exactly when it is the member at that position. -/
def Coherent (s : SwapSet) : Prop :=
  ∀ key position, s.position? key = some position ↔ s.get? position = some key

/-! ## The agreement of members and positions -/

theorem position?_mk_setIfInBounds (members : Array Nat) (positions : Array (Option Nat))
    (key other : Nat) (position : Option Nat) :
    position? ⟨members, positions.setIfInBounds key position⟩ other
      = if key = other ∧ key < positions.size then position
        else position? ⟨members, positions⟩ other := by
  simp only [position?, Array.getD_eq_getD_getElem?, Array.getElem?_setIfInBounds]
  by_cases same : key = other
  · subst same
    by_cases inside : key < positions.size <;> simp [inside]
  · simp [same]

/-- Of the keys a removal touches, one has no position any more and one has a new position. -/
theorem position?_mk_fillHole (members : Array Nat) (positions : Array (Option Nat))
    {key last : Nat} (inside : key < positions.size) (insideLast : last < positions.size)
    (members' : Array Nat) (hole other : Nat) :
    position? ⟨members', (positions.setIfInBounds last (some hole)).setIfInBounds key none⟩ other
      = if key = other then none else if last = other then some hole
        else position? ⟨members, positions⟩ other := by
  have kept : position? ⟨members', positions⟩ other = position? ⟨members, positions⟩ other := rfl
  simp only [position?_mk_setIfInBounds, Array.size_setIfInBounds, inside, insideLast, and_true,
    kept]

/-- The members that are left, with the last one in the hole. -/
theorem getElem?_pop_setIfInBounds {members : Array Nat} {hole : Nat}
    (holeSize : hole < members.size) (last i : Nat) :
    ((members.setIfInBounds hole last).pop)[i]?
      = if i < members.size - 1 then if hole = i then some last else members[i]? else none := by
  rw [Array.getElem?_pop, Array.getElem?_setIfInBounds, Array.size_setIfInBounds]
  by_cases filled : hole = i
  · subst filled
    simp [holeSize]
  · simp [filled]

theorem coherent_empty (capacity : Nat) : (empty capacity).Coherent := by
  intro key position
  have absent : (empty capacity).position? key = none := by
    simp only [position?, empty, Array.getD_eq_getD_getElem?, Array.getElem?_replicate]
    split <;> rfl
  rw [absent]
  simp [empty, get?]

/-- A key with a position is below the capacity. -/
theorem lt_capacity_of_position?_eq_some {s : SwapSet} {key position : Nat}
    (h : s.position? key = some position) : key < s.capacity := by
  refine Nat.lt_of_not_le fun beyond => ?_
  have outside : ¬ key < s.positions.size := Nat.not_lt.mpr beyond
  simp [position?, Array.getD_eq_getD_getElem?, outside] at h

namespace Coherent

variable {s : SwapSet}

/-- Membership as reported is membership in the list. -/
theorem contains_eq_true_iff (h : s.Coherent) (key : Nat) :
    s.contains key = true ↔ key ∈ s.toList := by
  rw [contains, Option.isSome_iff_exists, toList, List.mem_iff_getElem?]
  constructor
  · rintro ⟨i, hi⟩
    exact ⟨i, by simpa [get?] using (h key i).mp hi⟩
  · rintro ⟨i, hi⟩
    exact ⟨i, (h key i).mpr (by simpa [get?] using hi)⟩

/-- Members are below the capacity. -/
theorem lt_capacity (h : s.Coherent) {key : Nat} (hkey : key ∈ s.toList) :
    key < s.capacity := by
  rw [← h.contains_eq_true_iff, contains, Option.isSome_iff_exists] at hkey
  obtain ⟨i, hi⟩ := hkey
  exact lt_capacity_of_position?_eq_some hi

/-- No member stands at two positions. -/
theorem nodup (h : s.Coherent) : s.toList.Nodup := by
  rw [List.Nodup, List.pairwise_iff_getElem]
  intro i j hi hj hij same
  have first : s.get? i = some s.toList[i] := by
    simp only [toList, Array.length_toList] at hi
    simp [get?, toList, hi]
  have second : s.get? j = some s.toList[i] := by
    rw [same]
    simp only [toList, Array.length_toList] at hj
    simp [get?, toList, hj]
  rw [← h] at first second
  have := Option.some.inj (first.symm.trans second)
  omega

theorem lt_size_of_position?_eq_some (h : s.Coherent) {key position : Nat}
    (found : s.position? key = some position) : position < s.members.size := by
  rw [h] at found
  exact (Array.getElem?_eq_some_iff.mp found).1

/-- Insertion keeps the agreement. -/
theorem insert (h : s.Coherent) (key : Nat) : (s.insert key).Coherent := by
  unfold SwapSet.insert
  split
  · next fresh =>
    simp only [Bool.and_eq_true, decide_eq_true_eq, Bool.not_eq_true'] at fresh
    obtain ⟨inside, absent⟩ := fresh
    have inside' : key < s.positions.size := inside
    intro other i
    show position? ⟨_, _⟩ other = some i ↔ (s.members.push key)[i]? = some other
    rw [position?_mk_setIfInBounds, Array.getElem?_push]
    have old : position? ⟨s.members.push key, s.positions⟩ other = s.position? other := rfl
    have beyond : s.get? s.members.size = none := by simp [get?]
    have absent' : s.position? key = none := by simpa [contains] using absent
    have never : s.get? i ≠ some key := fun e => by
      rw [← h, absent'] at e
      exact absurd e (by simp)
    have before : s.members[i]? = s.get? i := rfl
    rw [old, before]
    by_cases same : key = other
    · subst same
      by_cases last : i = s.members.size
      · simp [inside', last]
      · simp [inside', last, never, Ne.symm last]
    · by_cases last : i = s.members.size
      · subst last
        simp [same, h other, beyond]
      · simp [same, last, h other i]
  · exact h

/-- Removal keeps the agreement. -/
theorem remove (h : s.Coherent) (key : Nat) : (s.remove key).Coherent := by
  unfold SwapSet.remove
  split
  · next hole last atHole atBack =>
    have inside : key < s.positions.size := lt_capacity_of_position?_eq_some atHole
    have atLast : s.position? last = some (s.members.size - 1) := by
      rw [h, get?, ← Array.back?_eq_getElem?]
      exact atBack
    have insideLast : last < s.positions.size := lt_capacity_of_position?_eq_some atLast
    have holeSize : hole < s.members.size := h.lt_size_of_position?_eq_some atHole
    intro other i
    show position? ⟨_, _⟩ other = some i ↔ ((s.members.setIfInBounds hole last).pop)[i]? = some other
    rw [position?_mk_fillHole s.members _ inside insideLast, getElem?_pop_setIfInBounds holeSize]
    have same : s.position? other = some i ↔ s.members[i]? = some other := h other i
    have onlyKey : s.position? other = some hole → key = other := fun found =>
      Option.some.inj (((h key hole).mp atHole).symm.trans ((h other hole).mp found))
    have onlyLast : s.position? other = some (s.members.size - 1) → last = other := fun found =>
      Option.some.inj (((h last _).mp atLast).symm.trans ((h other _).mp found))
    have whole : position? ⟨s.members, s.positions⟩ other = s.position? other := rfl
    rw [whole]
    by_cases short : i < s.members.size - 1
    · by_cases filled : hole = i
      · -- the last member has moved here, and it was not here before
        subst filled
        grind
      · -- neither the key nor the last member was here
        grind
    · -- nothing stands here any more; at most the last member did
      grind
  · exact h

end Coherent

end SwapSet

end CardinalitySearch
