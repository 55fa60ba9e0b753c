/-
CardinalitySearch.Proofs.Problem.Weights — what the occurrence table holds.

`Constraint.weight` says without any table by how much the number of true
literals changes when a proposition becomes true.  The main statement,
`weighted_index`, is that the weighted list of a proposition is the list of
the constraints with a weight other than zero, in order.

The table is filled literal by literal, and while the literals of one
constraint are recorded its weight may reach zero and leave it again, so an
entry comes and goes at the end of the list.  What the induction carries is
the whole list: the entries of earlier constraints, then `entry id w` for the
weight `w` recorded so far, which is no entry when `w` is zero.  A sum of words is
the word of the sum, so `w` is then what is kept of the weight.
-/
import CardinalitySearch.Problem.Basic

namespace CardinalitySearch

/-- The number of positive less the number of negative literals over `p`. -/
def weightIn (p : Nat) (ls : List Literal) : Int :=
  (ls.count ⟨p, true⟩ : Int) - ls.count ⟨p, false⟩

/-- The weight of a proposition in a constraint. -/
def Constraint.weight (c : Constraint) (p : Nat) : Int :=
  weightIn p c.literals

/-- What one occurrence adds to the weight. -/
def Literal.sign (l : Literal) : Int :=
  if l.positive then 1 else -1

theorem Literal.sign_ne_zero (l : Literal) : l.sign ≠ 0 := by
  unfold Literal.sign
  split <;> decide

theorem Literal.fits_sign (l : Literal) : Word.Fits l.sign := by
  unfold Literal.sign
  split <;> decide

@[simp] theorem weightIn_nil (p : Nat) : weightIn p [] = 0 := rfl

theorem weightIn_cons (p : Nat) (l : Literal) (ls : List Literal) :
    weightIn p (l :: ls) = (if l.proposition = p then l.sign else 0) + weightIn p ls := by
  obtain ⟨q, positive⟩ := l
  by_cases hit : q = p
  · subst hit
    cases positive <;> simp [weightIn, Literal.sign] <;> omega
  · simp [weightIn, hit]

/-- A weight is no larger than there are literals. -/
theorem natAbs_weightIn_le (p : Nat) (ls : List Literal) :
    (weightIn p ls).natAbs ≤ ls.length := by
  induction ls with
  | nil => exact Nat.le_refl 0
  | cons l rest ih =>
    have one : (if l.proposition = p then l.sign else 0).natAbs ≤ 1 := by
      unfold Literal.sign
      split
      · split <;> decide
      · decide
    rw [weightIn_cons, List.length_cons]
    omega

theorem Constraint.natAbs_weight_le (c : Constraint) (p : Nat) :
    (c.weight p).natAbs ≤ c.literals.length :=
  natAbs_weightIn_le p c.literals

namespace Occurrences

/-- The entry of a constraint of weight `w`, which is none if `w` is zero. -/
def entry (id : Nat) (w : Int) : List WeightedOccurrence :=
  if w = 0 then [] else [⟨id, w⟩]

@[simp] theorem entry_zero (id : Nat) : entry id 0 = [] := rfl

theorem entry_of_ne_zero (id : Nat) {w : Int} (h : w ≠ 0) : entry id w = [⟨id, w⟩] :=
  if_neg h

theorem constraint_of_mem_entry {id : Nat} {w : Int} {o : WeightedOccurrence}
    (h : o ∈ entry id w) : o.constraint = id := by
  unfold entry at h
  split at h
  · simp at h
  · rw [List.mem_singleton.mp h]

/-! ## One entry of the table -/

/-- Records those literals of a constraint that are over `p`. -/
def addOver (A : Arithmetic) (p id : Nat) (o : Occurrences) (ls : List Literal) : Occurrences :=
  ls.foldl (fun o l => if l.proposition = p then o.add A id l.positive else o) o

variable {A : Arithmetic}

/-- Recording literals in the table records at each proposition its own. -/
theorem getElem?_addConstraint (table : Array Occurrences) (c : Constraint) (p : Nat) :
    (addConstraint A table c)[p]? = table[p]?.map fun o => addOver A p c.id o c.literals := by
  unfold addConstraint addOver
  induction c.literals generalizing table with
  | nil => simp
  | cons l rest ih =>
    rw [List.foldl_cons, ih, Array.getElem?_modify]
    by_cases hit : l.proposition = p
    · simp [hit, Option.map_map, Function.comp_def]
    · simp [hit]

theorem getElem?_foldl_addConstraint (cs : List Constraint) (table : Array Occurrences)
    (p : Nat) :
    (cs.foldl (addConstraint A) table)[p]?
      = table[p]?.map fun o => cs.foldl (fun o c => addOver A p c.id o c.literals) o := by
  induction cs generalizing table with
  | nil => simp
  | cons c rest ih =>
    rw [List.foldl_cons, ih, getElem?_addConstraint, Option.map_map]
    rfl

/-- The table holds for each proposition what its own literals leave. -/
theorem getElem?_index {n p : Nat} (h : p < n) (cs : List Constraint) :
    (index n cs A)[p]? = some (cs.foldl (fun o c => addOver A p c.id o c.literals) {}) := by
  rw [index, getElem?_foldl_addConstraint, Array.getElem?_replicate, if_pos h]
  rfl

/-- If each constraint appends entries of its own to a list in which it has none yet,
constraints with distinct numbers append theirs in order. -/
theorem foldl_addOver_appends {β : Type} {p : Nat} {list : Occurrences → List β}
    {number : β → Nat} {new : Constraint → List β}
    (own : ∀ c, ∀ e ∈ new c, number e = c.id)
    (one : ∀ o c, (∀ e ∈ list o, number e ≠ c.id) →
      list (addOver A p c.id o c.literals) = list o ++ new c)
    (cs : List Constraint) :
    ∀ o : Occurrences, (cs.map (·.id)).Nodup →
      (∀ e ∈ list o, ∀ c ∈ cs, number e ≠ c.id) →
      list (cs.foldl (fun o c => addOver A p c.id o c.literals) o) = list o ++ cs.flatMap new := by
  induction cs with
  | nil => intro o _ _; simp
  | cons c rest ih =>
    intro o distinct fresh
    rw [List.map_cons, List.nodup_cons, List.mem_map] at distinct
    have here := one o c fun e he => fresh e he c (by simp)
    rw [List.foldl_cons, ih _ distinct.2, here, List.flatMap_cons, List.append_assoc]
    intro e he d hd
    rw [here, List.mem_append] at he
    rcases he with old | added
    · exact fresh e old d (List.mem_cons_of_mem _ hd)
    · rw [own c e added]
      exact fun same => distinct.1 ⟨d, hd, same.symm⟩

/-! ## The weighted list -/

theorem weighted_add (o : Occurrences) (id : Nat) (l : Literal) :
    (o.add A id l.positive).weighted = addWeight A o.weighted id l.sign := by
  obtain ⟨q, positive⟩ := l
  cases positive <;> rfl

/-- Adding to the weight of the constraint at the end of the list. -/
theorem toList_addWeight {entries : Array WeightedOccurrence} {earlier : List WeightedOccurrence}
    {id : Nat} {w v : Int} (h : entries.toList = earlier ++ entry id (A.signed w))
    (fresh : ∀ o ∈ earlier, o.constraint ≠ id) (hv : v ≠ 0) (fits : Word.Fits v) :
    (addWeight A entries id v).toList = earlier ++ entry id (A.signed (w + v)) := by
  rw [← A.add_signed]
  generalize A.signed w = w at h ⊢
  have back : entries.back? = (earlier ++ entry id w).getLast? := by
    rw [← h, Array.getLast?_toList]
  unfold addWeight
  rw [back]
  by_cases none : w = 0
  · -- there is no entry yet, and the last one belongs to another constraint
    subst none
    have first : A.add 0 v = v := by
      rw [Arithmetic.add_eq fun _ => by rwa [Int.zero_add], Int.zero_add]
    rw [entry_zero, List.append_nil] at h ⊢
    rw [first, entry_of_ne_zero id hv]
    split
    · next last atEnd =>
      have : last.constraint ≠ id := fresh last (List.mem_of_getLast? atEnd)
      simp [this, h]
    · simp [h]
  · rw [entry_of_ne_zero id none] at h ⊢
    have dropped : entries.pop.toList = earlier := by
      rw [Array.toList_pop, h, List.dropLast_concat]
    simp only [List.getLast?_concat, if_true]
    split
    · next cancelled => rw [dropped, cancelled, entry_zero, List.append_nil]
    · next remains => rw [Array.toList_push, dropped, entry_of_ne_zero id remains]

/-- Recording the literals of a constraint appends its entry. -/
theorem weighted_addOver (p id : Nat) (ls : List Literal) :
    ∀ {o : Occurrences} {earlier : List WeightedOccurrence} {w : Int},
      o.weighted.toList = earlier ++ entry id (A.signed w) →
      (∀ o ∈ earlier, o.constraint ≠ id) →
      (addOver A p id o ls).weighted.toList
        = earlier ++ entry id (A.signed (w + weightIn p ls)) := by
  induction ls with
  | nil => intro o earlier w h _; simpa [addOver] using h
  | cons l rest ih =>
    intro o earlier w h fresh
    unfold addOver at ih ⊢
    rw [List.foldl_cons, weightIn_cons]
    by_cases hit : l.proposition = p
    · rw [if_pos hit, if_pos hit, ← Int.add_assoc]
      refine ih ?_ fresh
      rw [weighted_add]
      exact toList_addWeight h fresh l.sign_ne_zero l.fits_sign
    · rw [if_neg hit, if_neg hit, Int.zero_add]
      exact ih h fresh

/-- The entries of a list of constraints for one proposition. -/
def entries (p : Nat) (cs : List Constraint) (A : Arithmetic := .unlimited) :
    List WeightedOccurrence :=
  (cs.filter fun c => A.signed (c.weight p) ≠ 0).map fun c => ⟨c.id, A.signed (c.weight p)⟩

theorem entries_unlimited (p : Nat) (cs : List Constraint) :
    entries p cs = (cs.filter fun c => c.weight p ≠ 0).map fun c => ⟨c.id, c.weight p⟩ :=
  rfl

theorem entries_cons (A : Arithmetic) (p : Nat) (c : Constraint) (cs : List Constraint) :
    entries p (c :: cs) A = entry c.id (A.signed (c.weight p)) ++ entries p cs A := by
  by_cases h : A.signed (c.weight p) = 0
  · simp [entries, h]
  · simp [entries, h, entry_of_ne_zero]

theorem entries_eq_flatMap (A : Arithmetic) (p : Nat) (cs : List Constraint) :
    entries p cs A = cs.flatMap fun c => entry c.id (A.signed (c.weight p)) := by
  induction cs with
  | nil => rfl
  | cons c rest ih => rw [entries_cons, ih, List.flatMap_cons]

/-- Weights that can be kept are kept. -/
theorem entries_eq {p : Nat} {cs : List Constraint}
    (kept : ∀ c ∈ cs, A.signed (c.weight p) = c.weight p) : entries p cs A = entries p cs := by
  induction cs with
  | nil => rfl
  | cons c rest ih =>
    rw [List.forall_mem_cons] at kept
    rw [entries_cons, entries_cons, kept.1, ih kept.2, Arithmetic.signed_unlimited]

/-- Constraints with distinct numbers leave their entries in order. -/
theorem weighted_foldl_addOver (p : Nat) (cs : List Constraint) :
    ∀ (o : Occurrences), (cs.map (·.id)).Nodup →
      (∀ e ∈ o.weighted.toList, ∀ c ∈ cs, e.constraint ≠ c.id) →
      (cs.foldl (fun o c => addOver A p c.id o c.literals) o).weighted.toList
        = o.weighted.toList ++ entries p cs A := by
  rw [entries_eq_flatMap]
  refine foldl_addOver_appends (fun c _ he => constraint_of_mem_entry he) (fun o c fresh => ?_) cs
  have none : A.signed 0 = 0 := Arithmetic.signed_eq fun _ => by decide
  have start : o.weighted.toList = o.weighted.toList ++ entry c.id (A.signed 0) := by
    rw [none, entry_zero, List.append_nil]
  simpa [Constraint.weight] using weighted_addOver p c.id c.literals start fresh

/-- The weighted list of a proposition holds the constraints in which its
occurrences do not cancel out, in order and with what is kept of their weights. -/
theorem weighted_index {n p : Nat} (h : p < n) {cs : List Constraint}
    (distinct : (cs.map (·.id)).Nodup) :
    ((index n cs A).getD p {}).weighted.toList = entries p cs A := by
  rw [Array.getD_eq_getD_getElem?, getElem?_index h]
  simpa using weighted_foldl_addOver p cs {} distinct (by simp)

end Occurrences

end CardinalitySearch
