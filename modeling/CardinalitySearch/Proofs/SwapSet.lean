/-
CardinalitySearch.Proofs.SwapSet — the order of the members of a swap set.

`toList` is the view through which everything else looks at a set.  Insertion
is `appendNew` on that list and removal is `fillHole`: the list alone decides
the order afterwards, the positions never do.  `fillHole` is written without
positions, as a renaming on the list that has lost its last member, so that
the order laws do not repeat what the arrays do.

All laws need `Coherent`, which gives that the list has no duplicates.
-/
import CardinalitySearch.SwapSet

namespace CardinalitySearch.SwapSet

/-- The list with a key appended unless it is there already. -/
def appendNew (members : List Nat) (key : Nat) : List Nat :=
  if key ∈ members then members else members ++ [key]

/-- The list in which the last member has taken the place of a key. -/
def fillHole (members : List Nat) (key : Nat) : List Nat :=
  if key ∈ members then
    members.dropLast.map fun k => if k = key then members.getLastD key else k
  else members

/-! ## The two list operations -/

theorem mem_appendNew (members : List Nat) (key k : Nat) :
    k ∈ appendNew members key ↔ k = key ∨ k ∈ members := by
  unfold appendNew
  split
  · next present =>
    constructor
    · exact Or.inr
    · rintro (rfl | h)
      · exact present
      · exact h
  · simp [or_comm]

/-- Without duplicates the key is gone afterwards and nothing else is. -/
theorem mem_fillHole {members : List Nat} (distinct : members.Nodup) (key k : Nat) :
    k ∈ fillHole members key ↔ k ∈ members ∧ k ≠ key := by
  unfold fillHole
  split
  · next present =>
    obtain ⟨init, last, rfl⟩ : ∃ init last, members = init ++ [last] :=
      ⟨_, _, (List.dropLast_concat_getLast (List.ne_nil_of_mem present)).symm⟩
    obtain ⟨-, -, apart⟩ := List.nodup_append.mp distinct
    have lastNew : ∀ j ∈ init, j ≠ last := fun j hj => apart j hj last (by simp)
    simp only [List.dropLast_concat, List.getLastD_concat, List.mem_map, List.mem_append,
      List.mem_singleton]
    constructor
    · rintro ⟨j, hj, rfl⟩
      by_cases same : j = key
      · subst same
        simpa using Ne.symm (lastNew j hj)
      · simp [same, hj]
    · rintro ⟨hk | rfl, other⟩
      · exact ⟨k, hk, by simp [other]⟩
      · have inside : key ∈ init := by
          simpa [Ne.symm other] using present
        exact ⟨key, inside, by simp⟩
  · next absent =>
    constructor
    · exact fun h => ⟨h, fun e => absent (e ▸ h)⟩
    · exact And.left

/-! ## What the operations on a set do to its list -/

@[simp] theorem length_toList (s : SwapSet) : s.toList.length = s.size := by
  simp [toList, size]

theorem get?_eq_getElem?_toList (s : SwapSet) (i : Nat) : s.get? i = s.toList[i]? := by
  simp [get?, toList]

theorem isEmpty_eq_true_iff (s : SwapSet) : s.isEmpty = true ↔ s.toList = [] := by
  simp [isEmpty, toList]

@[simp] theorem toList_empty (capacity : Nat) : (empty capacity).toList = [] := rfl

@[simp] theorem capacity_empty (n : Nat) : (empty n).capacity = n := by
  simp [capacity, empty]

@[simp] theorem capacity_insert (s : SwapSet) (key : Nat) :
    (s.insert key).capacity = s.capacity := by
  unfold insert
  split <;> simp [capacity]

@[simp] theorem capacity_remove (s : SwapSet) (key : Nat) :
    (s.remove key).capacity = s.capacity := by
  unfold remove
  split <;> simp [capacity]

namespace Coherent

variable {s : SwapSet}

/-- Insertion of a key below the capacity appends it if it is new. -/
theorem toList_insert (h : s.Coherent) {key : Nat} (inside : key < s.capacity) :
    (s.insert key).toList = appendNew s.toList key := by
  unfold SwapSet.insert appendNew
  by_cases present : key ∈ s.toList
  · have : s.contains key = true := (h.contains_eq_true_iff key).mpr present
    simp [this, present]
  · have : s.contains key = false := by
      rw [← Bool.not_eq_true, h.contains_eq_true_iff]
      exact present
    rw [if_neg present, ← Array.toList_push]
    simp [this, inside, toList]

/-- Inserting new keys one by one appends them. -/
theorem foldl_insert (keys : List Nat) :
    ∀ {s : SwapSet}, s.Coherent → keys.Nodup → (∀ k ∈ keys, k < s.capacity ∧ k ∉ s.toList) →
      (keys.foldl SwapSet.insert s).Coherent ∧
        (keys.foldl SwapSet.insert s).capacity = s.capacity ∧
        (keys.foldl SwapSet.insert s).toList = s.toList ++ keys := by
  induction keys with
  | nil => intro s h _ _; exact ⟨h, rfl, by simp⟩
  | cons key rest ih =>
    intro s h distinct new
    obtain ⟨inside, absent⟩ := new key (by simp)
    rw [List.nodup_cons] at distinct
    have after : (s.insert key).toList = s.toList ++ [key] := by
      rw [h.toList_insert inside, appendNew, if_neg absent]
    obtain ⟨coherent, capacity, list⟩ := ih (h.insert key) distinct.2 fun k hk => by
      rw [capacity_insert, after, List.mem_append, List.mem_singleton]
      refine ⟨(new k (by simp [hk])).1, ?_⟩
      rintro (old | rfl)
      · exact (new k (by simp [hk])).2 old
      · exact distinct.1 hk
    refine ⟨coherent, capacity.trans (capacity_insert s key), ?_⟩
    rw [List.foldl_cons, list, after, List.append_assoc, List.singleton_append]

/-- Removal moves the last member into the hole. -/
theorem toList_remove (h : s.Coherent) (key : Nat) :
    (s.remove key).toList = fillHole s.toList key := by
  unfold SwapSet.remove fillHole
  by_cases present : key ∈ s.toList
  · obtain ⟨hole, holeSize, atHole⟩ := List.mem_iff_getElem.mp present
    have position : s.position? key = some hole := by
      rw [h, get?_eq_getElem?_toList, List.getElem?_eq_getElem holeSize, atHole]
    obtain ⟨last, back⟩ : ∃ last, s.toList.getLast? = some last :=
      ⟨_, List.getLast?_eq_some_getLast (List.ne_nil_of_mem present)⟩
    have back' : s.members.back? = some last := by
      simpa [toList, Array.getLast?_toList] using back
    have lastD : s.toList.getLastD key = last := by
      rw [List.getLastD_eq_getLast?, back]
      rfl
    have result : toList ⟨(s.members.setIfInBounds hole last).pop,
        (s.positions.setIfInBounds last (some hole)).setIfInBounds key none⟩
        = (s.toList.set hole last).dropLast := by
      simp [toList]
    simp only [position, back', present, if_true, lastD, result]
    -- the position of the key is the only one at which the key stands
    refine List.ext_getElem (by simp) fun i hi _ => ?_
    simp only [List.length_dropLast, List.length_set] at hi
    have here : s.toList[i] = key ↔ hole = i := by
      rw [← atHole, List.getElem_inj h.nodup, eq_comm]
    simp only [List.getElem_dropLast, List.getElem_set, List.getElem_map, here]
  · have : s.position? key = none := by
      rw [← Option.not_isSome_iff_eq_none]
      exact fun e => present ((h.contains_eq_true_iff key).mp e)
    simp [this, present]

end Coherent

end CardinalitySearch.SwapSet
