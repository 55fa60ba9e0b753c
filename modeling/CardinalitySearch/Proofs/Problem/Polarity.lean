/-
CardinalitySearch.Proofs.Problem.Polarity — the constraints in which a literal occurs.

Beside the weights the occurrence table lists, for each proposition, the
constraints with a positive and those with a negative occurrence.  A constraint
with several occurrences of one sign is listed once, since a repetition can
only meet its own entry at the end of the list.

Both lists are treated as one, by the sign of the literal (`ofSign`).  The
statement is `ofSign_index`: the list of a literal is that of the constraints
it is in, in their order.  As for the weights, what the induction carries is
the list of earlier constraints, followed by the current one if it has been
seen.
-/
import CardinalitySearch.Proofs.Problem.WellFormed

namespace CardinalitySearch

namespace Occurrences

/-- The constraints with an occurrence of a sign. -/
def ofSign (o : Occurrences) (sign : Bool) : Array Nat :=
  if sign then o.positive else o.negative

variable {A : Arithmetic}

theorem ofSign_add (o : Occurrences) (id : Nat) (positive sign : Bool) :
    (o.add A id positive).ofSign sign
      = if positive = sign then pushNew (o.ofSign sign) id else o.ofSign sign := by
  cases positive <;> cases sign <;> rfl

/-- The current constraint, once it has been seen. -/
def mark (id : Nat) (seen : Bool) : List Nat :=
  if seen then [id] else []

theorem eq_of_mem_mark {id i : Nat} {seen : Bool} (h : i ∈ mark id seen) : i = id := by
  unfold mark at h
  split at h
  · exact List.mem_singleton.mp h
  · simp at h

/-- A constraint is listed from its first occurrence on. -/
theorem toList_pushNew {ids : Array Nat} {earlier : List Nat} {id : Nat} {seen : Bool}
    (h : ids.toList = earlier ++ mark id seen) (fresh : id ∉ earlier) :
    (pushNew ids id).toList = earlier ++ mark id true := by
  have back : ids.back? = (earlier ++ mark id seen).getLast? := by
    rw [← h, Array.getLast?_toList]
  unfold pushNew
  rw [back]
  cases seen with
  | true => simpa [mark] using h
  | false =>
    rw [mark, if_neg Bool.false_ne_true, List.append_nil] at h ⊢
    have notLast : earlier.getLast? ≠ some id := fun e => fresh (List.mem_of_getLast? e)
    rw [if_neg notLast, Array.toList_push, h]
    rfl

/-- Recording the literals of a constraint lists it if the literal is among them. -/
theorem ofSign_addOver (p id : Nat) (sign : Bool) (ls : List Literal) :
    ∀ {o : Occurrences} {earlier : List Nat} {seen : Bool},
      (o.ofSign sign).toList = earlier ++ mark id seen → id ∉ earlier →
      ((addOver A p id o ls).ofSign sign).toList
        = earlier ++ mark id (seen || ls.contains ⟨p, sign⟩) := by
  induction ls with
  | nil => intro o earlier seen h _; simpa [addOver] using h
  | cons l rest ih =>
    intro o earlier seen h fresh
    obtain ⟨q, positive⟩ := l
    unfold addOver at ih ⊢
    rw [List.foldl_cons, List.contains_cons]
    by_cases hit : q = p ∧ positive = sign
    · obtain ⟨rfl, rfl⟩ := hit
      have here : ((o.add A id positive).ofSign positive).toList = earlier ++ mark id true := by
        rw [ofSign_add, if_pos rfl]
        exact toList_pushNew h fresh
      simpa using ih here fresh
    · have other : (⟨p, sign⟩ : Literal) ≠ ⟨q, positive⟩ := fun same => by
        obtain ⟨rfl, rfl⟩ := Literal.mk.inj same
        exact hit ⟨rfl, rfl⟩
      have skip : (⟨p, sign⟩ == (⟨q, positive⟩ : Literal)) = false := by simpa using other
      rw [skip, Bool.false_or]
      refine ih ?_ fresh
      by_cases sameName : q = p
      · rw [if_pos sameName, ofSign_add, if_neg fun same => hit ⟨sameName, same⟩]
        exact h
      · rw [if_neg sameName]
        exact h

/-- The constraints in which a literal occurs. -/
def containing (l : Literal) (cs : List Constraint) : List Nat :=
  (cs.filter fun c => c.literals.contains l).map (·.id)

theorem containing_eq_flatMap (l : Literal) (cs : List Constraint) :
    containing l cs = cs.flatMap fun c => mark c.id (c.literals.contains l) := by
  unfold containing
  induction cs with
  | nil => rfl
  | cons c rest ih =>
    rw [List.flatMap_cons, ← ih, List.filter_cons, mark]
    split <;> rfl

/-- Constraints with distinct numbers are listed in order. -/
theorem ofSign_foldl_addOver (p : Nat) (sign : Bool) (cs : List Constraint) :
    ∀ (o : Occurrences), (cs.map (·.id)).Nodup →
      (∀ i ∈ (o.ofSign sign).toList, ∀ c ∈ cs, i ≠ c.id) →
      ((cs.foldl (fun o c => addOver A p c.id o c.literals) o).ofSign sign).toList
        = (o.ofSign sign).toList ++ containing ⟨p, sign⟩ cs := by
  rw [containing_eq_flatMap]
  refine foldl_addOver_appends (fun c i hi => eq_of_mem_mark hi)
    (fun o c fresh => ?_) cs
  have start : (o.ofSign sign).toList = (o.ofSign sign).toList ++ mark c.id false := by
    simp [mark]
  simpa using ofSign_addOver p c.id sign c.literals start fun old => fresh c.id old rfl

/-- The list of a literal holds the constraints in which it occurs, in order. -/
theorem ofSign_index {n p : Nat} (h : p < n) (sign : Bool) {cs : List Constraint}
    (distinct : (cs.map (·.id)).Nodup) :
    (((index n cs A).getD p {}).ofSign sign).toList = containing ⟨p, sign⟩ cs := by
  have empty : (({} : Occurrences).ofSign sign).toList = [] := by cases sign <;> rfl
  rw [Array.getD_eq_getD_getElem?, getElem?_index h]
  simpa [empty] using ofSign_foldl_addOver p sign cs {} distinct (by simp [empty])

/-- The table has one entry for each proposition. -/
theorem size_index (n : Nat) (cs : List Constraint) : (index n cs A).size = n := by
  have beyond : ∀ p, (index n cs A).size ≤ p ↔ n ≤ p := fun p => by
    rw [← Array.getElem?_eq_none_iff, index, getElem?_foldl_addConstraint, Option.map_eq_none_iff,
      Array.getElem?_eq_none_iff, Array.size_replicate]
  exact Nat.le_antisymm ((beyond n).mpr (Nat.le_refl n)) ((beyond _).mp (Nat.le_refl _))

end Occurrences

namespace Problem.Indexed

variable {P : Problem}

/-- The constraints of a literal, read off the constraints. -/
theorem ofSign_occurrencesOf (h : P.Indexed) {p : Nat} (hp : p < P.propositionCount)
    (sign : Bool) :
    ((P.occurrencesOf p).ofSign sign).toList
      = Occurrences.containing ⟨p, sign⟩ P.constraints.toList := by
  rw [occurrencesOf, h.occurrences]
  exact Occurrences.ofSign_index hp sign h.distinct

end Problem.Indexed

end CardinalitySearch
