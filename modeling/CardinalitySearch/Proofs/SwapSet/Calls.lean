/-
CardinalitySearch.Proofs.SwapSet.Calls — a swap set is an ordered set.

The reference is a plain list of keys.  A call has a meaning on it
(`Call.answer`, `Call.after`), and it is in range when its key is below the
capacity or its position below the length (`Call.InRange`).

`Represents` says that a set stands for a list: its members are that list,
which has no duplicates and no more keys than the capacity; every key below the
capacity has as its position the index at which it is in the list, and none if
it is not in it; and the positions below the size give the members, each once.

One call in range on a set answers as on the list and does to the list what it
does there (`Coherent.perform?_eq`).  From that, by induction, any sequence of
calls on the empty set does (`Coherent.performAll?_eq`).
-/
import Mathlib.Data.List.Perm.Subperm
import CardinalitySearch.SwapSet.Call
import CardinalitySearch.Proofs.SwapSet

namespace CardinalitySearch.SwapSet

/-! ## 1. Calls on a list -/

namespace Call

/-- The call is one that may be made. -/
def InRange (n : Nat) (members : List Nat) : Call → Prop
  | .insert key | .remove key | .contains key => key < n
  | .get position => position < members.length

instance (n : Nat) (members : List Nat) : (call : Call) → Decidable (call.InRange n members)
  | .insert key | .remove key | .contains key => inferInstanceAs (Decidable (key < n))
  | .get position => inferInstanceAs (Decidable (position < members.length))

/-- The answer, from the members before the call. -/
def answer (members : List Nat) : Call → Answer
  | .insert key => .flag (key ∉ members)
  | .remove key | .contains key => .flag (key ∈ members)
  | .get position => .member (members.getD position 0)

/-- The members after the call. -/
def after (members : List Nat) : Call → List Nat
  | .insert key => appendNew members key
  | .remove key => fillHole members key
  | .contains _ | .get _ => members

end Call

/-- Each call is in range when its turn comes. -/
def AllInRange (n : Nat) (members : List Nat) : List Call → Prop
  | [] => True
  | call :: rest => call.InRange n members ∧ AllInRange n (call.after members) rest

instance decidableAllInRange (n : Nat) :
    (members : List Nat) → (calls : List Call) → Decidable (AllInRange n members calls)
  | _, [] => inferInstanceAs (Decidable True)
  | members, call :: rest =>
    have := decidableAllInRange n (call.after members) rest
    inferInstanceAs (Decidable (_ ∧ _))

/-- The answers to calls made one after the other. -/
def answersOn (members : List Nat) : List Call → List Answer
  | [] => []
  | call :: rest => call.answer members :: answersOn (call.after members) rest

/-- The members after calls made one after the other. -/
def membersAfter (members : List Nat) (calls : List Call) : List Nat :=
  calls.foldl Call.after members

/-! ## 2. Holes -/

/-- The last member leaves no hole. -/
theorem fillHole_concat {before : List Nat} {last : Nat} (distinct : (before ++ [last]).Nodup) :
    fillHole (before ++ [last]) last = before := by
  obtain ⟨-, -, apart⟩ := List.nodup_append.mp distinct
  have kept : ∀ k ∈ before, (if k = last then last else k) = k := by
    intro k hk
    rw [if_neg (apart k hk last (by simp))]
  simp only [fillHole, List.mem_append, List.mem_singleton, or_true, if_true,
    List.dropLast_concat, List.getLastD_concat]
  rw [List.map_congr_left kept, List.map_id']

/-- The hole of another member is filled by the last one. -/
theorem fillHole_append_cons {before between : List Nat} {key last : Nat}
    (distinct : (before ++ key :: between ++ [last]).Nodup) :
    fillHole (before ++ key :: between ++ [last]) key = before ++ last :: between := by
  obtain ⟨distinct, -, -⟩ := List.nodup_append.mp distinct
  obtain ⟨-, distinct, apart⟩ := List.nodup_append.mp distinct
  have kept : ∀ {ks : List Nat}, key ∉ ks →
      ks.map (fun k => if k = key then last else k) = ks := by
    intro ks absent
    refine (List.map_congr_left fun k hk => ?_).trans (List.map_id' ks)
    exact if_neg fun same : k = key => absent (same ▸ hk)
  have front : key ∉ before := fun inside => apart key inside key (by simp) rfl
  have back : key ∉ between := (List.nodup_cons.mp distinct).1
  simp only [fillHole, List.mem_append, List.mem_cons, true_or, or_true, if_true,
    List.dropLast_concat, List.getLastD_concat, List.map_append, List.map_cons, kept front,
    kept back]

/-! ## 3. The list of a set -/

/-- The set has the capacity `n` and stands for this list. -/
structure Represents (s : SwapSet) (n : Nat) (members : List Nat) : Prop where
  list : s.toList = members
  size : s.size = members.length
  distinct : members.Nodup
  length_le : members.length ≤ n
  contains : ∀ key < n, s.contains? key = some (decide (key ∈ members))
  positions : ∀ key < n, s.positions[key]? = some (members.idxOf? key)
  enumerates : (List.range s.size).map s.get? = members.map some

/-- Inserting a member changes nothing. -/
theorem insert_of_contains {s : SwapSet} {key : Nat} (present : s.contains key = true) :
    s.insert key = s := by
  unfold insert
  rw [present]
  simp

/-- Removing a key that is no member changes nothing. -/
theorem remove_of_not_contains {s : SwapSet} {key : Nat} (absent : s.contains key = false) :
    s.remove key = s := by
  have nowhere : s.position? key = none := by simpa [contains] using absent
  unfold remove
  rw [nowhere]

namespace Coherent

variable {s : SwapSet}

theorem contains_eq_decide (h : s.Coherent) (key : Nat) :
    s.contains key = decide (key ∈ s.toList) := by
  rw [Bool.eq_iff_iff, h.contains_eq_true_iff, decide_eq_true_eq]

theorem contains?_eq (h : s.Coherent) {key : Nat} (inside : key < s.capacity) :
    s.contains? key = some (decide (key ∈ s.toList)) := by
  rw [contains?, if_pos inside, h.contains_eq_decide]

theorem insert?_eq (h : s.Coherent) {key : Nat} (inside : key < s.capacity) :
    s.insert? key = some (decide (key ∉ s.toList), s.insert key) := by
  rw [insert?, h.contains?_eq inside, Option.map_some, decide_not]

theorem remove?_eq (h : s.Coherent) {key : Nat} (inside : key < s.capacity) :
    s.remove? key = some (decide (key ∈ s.toList), s.remove key) := by
  rw [remove?, h.contains?_eq inside, Option.map_some]

/-- The position of a key is its index in the list. -/
theorem position?_eq (h : s.Coherent) (key : Nat) :
    s.position? key = s.toList.idxOf? key := by
  refine Option.ext fun i => ?_
  rw [h key i, get?_eq_getElem?_toList, List.idxOf?_eq_some_iff]
  constructor
  · intro stands
    obtain ⟨inside, here⟩ := List.getElem?_eq_some_iff.mp stands
    refine ⟨inside, here, fun j before same => ?_⟩
    rw [← here, List.getElem_inj h.nodup] at same
    exact Nat.ne_of_lt before same
  · rintro ⟨inside, here, -⟩
    exact List.getElem?_eq_some_iff.mpr ⟨inside, here⟩

/-- A set whose positions agree with its members stands for the list of these. -/
theorem represents (h : s.Coherent) : s.Represents s.capacity s.toList where
  list := rfl
  size := s.length_toList.symm
  distinct := h.nodup
  length_le := by
    have below : s.toList ⊆ List.range s.capacity := fun key member =>
      List.mem_range.mpr (h.lt_capacity member)
    simpa using (h.nodup.subperm below).length_le
  contains _ inside := h.contains?_eq inside
  positions key inside := by
    rw [← h.position?_eq key, position?, Array.getD_eq_getD_getElem?]
    have found : key < s.positions.size := inside
    simp [found]
  enumerates := by
    refine List.ext_getElem (by simp) fun i hi _ => ?_
    simp only [List.length_map, List.length_range, ← length_toList] at hi
    simp [get?_eq_getElem?_toList]

/-! ## 4. One call, and a sequence of calls -/

/-- A call in range answers as on the list and does to the list what it does there. -/
theorem perform?_eq (h : s.Coherent) {call : Call} (inRange : call.InRange s.capacity s.toList) :
    ∃ s', s.perform? call = some (call.answer s.toList, s') ∧ s'.Coherent ∧
      s'.capacity = s.capacity ∧ s'.toList = call.after s.toList := by
  cases call with
  | insert key =>
    refine ⟨s.insert key, ?_, h.insert key, s.capacity_insert key, h.toList_insert inRange⟩
    rw [perform?, h.insert?_eq inRange]
    rfl
  | remove key =>
    refine ⟨s.remove key, ?_, h.remove key, s.capacity_remove key, h.toList_remove key⟩
    rw [perform?, h.remove?_eq inRange]
    rfl
  | contains key =>
    refine ⟨s, ?_, h, rfl, rfl⟩
    rw [perform?, h.contains?_eq inRange]
    rfl
  | get position =>
    have inside : position < s.toList.length := inRange
    have stands : s.toList[position]? = some (s.toList.getD position 0) := by
      simp only [List.getD_eq_getElem?_getD, List.getElem?_eq_getElem inside, Option.getD_some]
    refine ⟨s, ?_, h, rfl, rfl⟩
    rw [perform?, get?_eq_getElem?_toList, stands]
    rfl

/-- So do calls made one after the other. -/
theorem performAll?_eq (calls : List Call) :
    ∀ {s : SwapSet}, s.Coherent → AllInRange s.capacity s.toList calls →
      ∃ s', s.performAll? calls = some (answersOn s.toList calls, s') ∧ s'.Coherent ∧
        s'.capacity = s.capacity ∧ s'.toList = membersAfter s.toList calls := by
  induction calls with
  | nil => exact fun {s} h _ => ⟨s, rfl, h, rfl, rfl⟩
  | cons call rest ih =>
    rintro s h ⟨first, others⟩
    obtain ⟨s', performed, coherent, capacity, list⟩ := h.perform?_eq first
    rw [← capacity, ← list] at others
    obtain ⟨s'', answered, coherent', capacity', list'⟩ := ih coherent others
    refine ⟨s'', ?_, coherent', capacity'.trans capacity, ?_⟩
    · simp [performAll?, performed, answered, answersOn, list]
    · rw [list', list]
      rfl

end Coherent

/-- Any sequence of calls in range on the empty set has the answers that it has on the
empty list, and leaves a set that stands for the list then reached.  On that set a
new key is appended, a member that is removed gives its place to the last one or, if
it is the last one itself, is dropped, and nothing changes when a member is
inserted or another key removed. -/
theorem performAll?_empty (n : Nat) (calls : List Call) (inRange : AllInRange n [] calls) :
    let members := membersAfter [] calls
    ∃ s, (empty n).performAll? calls = some (answersOn [] calls, s) ∧ s.Represents n members ∧
      (∀ key < n, key ∉ members →
        (∃ s', s.insert? key = some (true, s') ∧ s'.Represents n (members ++ [key])) ∧
          s.remove? key = some (false, s)) ∧
      (∀ key ∈ members, s.insert? key = some (false, s)) ∧
      (∀ before last, members = before ++ [last] →
        ∃ s', s.remove? last = some (true, s') ∧ s'.Represents n before) ∧
      ∀ before key between last, members = before ++ key :: between ++ [last] →
        ∃ s', s.remove? key = some (true, s') ∧ s'.Represents n (before ++ last :: between) := by
  intro members
  obtain ⟨s, answered, coherent, capacity, list⟩ :=
    (coherent_empty n).performAll?_eq calls (by simpa using inRange)
  rw [capacity_empty] at capacity
  rw [toList_empty] at answered list
  have represents : s.Represents n members := by
    have here := coherent.represents
    rwa [capacity, list] at here
  have below : ∀ key ∈ members, key < s.capacity := fun key member =>
    coherent.lt_capacity (list ▸ member)
  -- removing a member leaves a set that stands for the list with the hole filled
  have removal : ∀ key ∈ members, ∃ s', s.remove? key = some (true, s') ∧
      s'.Represents n (fillHole members key) := by
    intro key member
    refine ⟨s.remove key, ?_, ?_⟩
    · rw [coherent.remove?_eq (below key member), list, decide_eq_true member]
    · have after := (coherent.remove key).represents
      rwa [capacity_remove, capacity, coherent.toList_remove, list] at after
  refine ⟨s, answered, represents, ?_, ?_, ?_, ?_⟩
  · intro key inside absent
    have inside' : key < s.capacity := capacity ▸ inside
    have notThere : s.contains key = false := by
      rw [coherent.contains_eq_decide, list, decide_eq_false absent]
    refine ⟨⟨s.insert key, ?_, ?_⟩, ?_⟩
    · rw [coherent.insert?_eq inside', list, decide_eq_true absent]
    · have after := (coherent.insert key).represents
      rwa [capacity_insert, capacity, coherent.toList_insert inside', list, appendNew,
        if_neg absent] at after
    · rw [coherent.remove?_eq inside', list, decide_eq_false absent,
        remove_of_not_contains notThere]
  · intro key member
    have there : s.contains key = true := (coherent.contains_eq_true_iff key).mpr (list ▸ member)
    rw [coherent.insert?_eq (below key member), list, decide_eq_false (not_not_intro member),
      insert_of_contains there]
  · intro before last split
    have filled := removal last (by simp [split])
    rwa [split, fillHole_concat (split ▸ represents.distinct)] at filled
  · intro before key between last split
    have filled := removal key (by simp [split])
    rwa [split, fillHole_append_cons (split ▸ represents.distinct)] at filled

/-- Insertions, a removal from the middle, one of the last member, and calls without effect. -/
def sampleCalls : List Call :=
  [.insert 3, .insert 0, .insert 4, .insert 0, .get 2, .remove 3, .contains 3, .remove 3, .insert 1,
    .remove 1, .insert 2]

theorem performAll?_empty_sample :
    AllInRange 5 [] sampleCalls ∧ membersAfter [] sampleCalls = [4, 0, 2] ∧
      ∃ s, (empty 5).performAll? sampleCalls
          = some ([.flag true, .flag true, .flag true, .flag false, .member 4, .flag true,
              .flag false, .flag false, .flag true, .flag true, .flag true], s) ∧
        s.positions[4]? = some (some 0) ∧ s.positions[3]? = some none ∧
        s.remove? 1 = some (false, s) ∧
        ∃ s', s.remove? 4 = some (true, s') ∧ s'.toList = [2, 0] := by
  have inRange : AllInRange 5 [] sampleCalls := by decide
  have reached : membersAfter [] sampleCalls = [4, 0, 2] := by decide
  obtain ⟨s, answered, represents, new, -, -, moved⟩ := performAll?_empty 5 sampleCalls inRange
  rw [reached] at represents new moved
  obtain ⟨s', removed, represents'⟩ := moved [] 4 [0] 2 rfl
  exact ⟨inRange, reached, s, answered, represents.positions 4 (by decide),
    represents.positions 3 (by decide), (new 1 (by decide) (by decide)).2, s', removed,
    represents'.list⟩

end CardinalitySearch.SwapSet
