/-
CardinalitySearch.Proofs.Satisfaction.Recount — counting before and after a flip.

Everything here is said by counting anew: no cached number and no table
occurs.  `countTrue_toggle` gives the number of true literals after a flip from
the number before it and the weight, and `violatedBy` is characterised as a
set, as a list without duplicates, and by when it is empty.
-/
import CardinalitySearch.Proofs.Problem.WellFormed

namespace CardinalitySearch

namespace Assignment

/-- A flip negates exactly the literals over the flipped proposition. -/
theorem holds_toggle (a : Assignment) {p : Nat} (h : p < a.size) (l : Literal) :
    (a.toggle p).holds l = if l.proposition = p then !a.holds l else a.holds l := by
  unfold holds
  rw [value_toggle a h]
  by_cases hit : l.proposition = p
  · subst hit
    cases l.positive <;> cases a.value l.proposition <;> simp [Literal.evaluate, *]
  · simp [hit, Ne.symm hit]

theorem countTrue_cons (a : Assignment) (l : Literal) (ls : List Literal) :
    a.countTrue (l :: ls) = a.countTrue ls + if a.holds l then 1 else 0 :=
  List.countP_cons

/-- Only the values of the propositions in a list matter for its count. -/
theorem countTrue_congr {a b : Assignment} {ls : List Literal}
    (agree : ∀ l ∈ ls, a.value l.proposition = b.value l.proposition) :
    a.countTrue ls = b.countTrue ls := by
  unfold countTrue
  refine List.countP_congr fun l hl => ?_
  rw [holds, holds, agree l hl]

/-- What one literal over the flipped proposition adds to the count. -/
theorem ite_holds_toggle (a : Assignment) {p : Nat} (h : p < a.size) (l : Literal) :
    ((if (a.toggle p).holds l then 1 else 0 : Nat) : Int)
      = (if a.holds l then 1 else 0 : Nat)
        + if l.proposition = p then (if a.value p then -l.sign else l.sign) else 0 := by
  rw [holds_toggle a h]
  by_cases hit : l.proposition = p
  · obtain ⟨q, positive⟩ := l
    subst hit
    cases positive <;> cases value : a.value q <;>
      simp [holds, Literal.evaluate, Literal.sign, value]
  · simp [hit]

/-- A flip changes the number of true literals by the weight of the flipped
proposition: up when it becomes true, down when it becomes false. -/
theorem countTrue_toggle (a : Assignment) {p : Nat} (h : p < a.size) (ls : List Literal) :
    ((a.toggle p).countTrue ls : Int)
      = a.countTrue ls + if a.value p then -weightIn p ls else weightIn p ls := by
  induction ls with
  | nil => simp [countTrue]
  | cons l rest ih =>
    have first := ite_holds_toggle a h l
    rw [countTrue_cons, countTrue_cons, weightIn_cons, Int.natCast_add, Int.natCast_add, ih, first]
    split <;> omega

/-- A flip leaves a count alone when the weights cancel out. -/
theorem countTrue_toggle_eq_iff (a : Assignment) {p : Nat} (h : p < a.size)
    (ls : List Literal) :
    (a.toggle p).countTrue ls = a.countTrue ls ↔ weightIn p ls = 0 := by
  have := a.countTrue_toggle h ls
  split at this <;> omega

end Assignment

/-- A constraint in which the occurrences of a proposition cancel out stays as
it is. -/
theorem Constraint.satisfiedBy_toggle (c : Constraint) {a : Assignment} {p : Nat}
    (h : p < a.size) (none : c.weight p = 0) : c.satisfiedBy (a.toggle p) = c.satisfiedBy a := by
  have same : (a.toggle p).countTrue c.literals = a.countTrue c.literals :=
    (a.countTrue_toggle_eq_iff h c.literals).mpr none
  rw [satisfiedBy, satisfiedBy, same]

namespace Problem

variable {P : Problem}

theorem mem_violatedBy {a : Assignment} {i : Nat} :
    i ∈ P.violatedBy a ↔ ∃ c ∈ P.constraints.toList, c.satisfiedBy a = false ∧ c.id = i := by
  simp [violatedBy, and_assoc]

theorem violatedBy_eq_nil_iff {a : Assignment} :
    P.violatedBy a = [] ↔ P.satisfiedBy a = true := by
  simp only [violatedBy, satisfiedBy, List.map_eq_nil_iff, List.filter_eq_nil_iff,
    List.all_eq_true, Bool.not_eq_true', Bool.not_eq_false]

namespace WellFormed

theorem id_mem_violatedBy_iff (h : P.WellFormed) {a : Assignment} {c : Constraint}
    (hc : c ∈ P.constraints.toList) :
    c.id ∈ P.violatedBy a ↔ c.satisfiedBy a = false := by
  rw [mem_violatedBy]
  constructor
  · rintro ⟨d, hd, violated, same⟩
    have : P.constraint? c.id = some d := h.constraint?_eq_some_iff.mpr ⟨hd, same⟩
    rw [h.constraint?_id hc, Option.some.injEq] at this
    rw [this]
    exact violated
  · exact fun violated => ⟨c, hc, violated, rfl⟩

/-- The violated constraints are listed in increasing order. -/
theorem violatedBy_pairwise (h : P.WellFormed) (a : Assignment) :
    (P.violatedBy a).Pairwise (· < ·) :=
  h.increasing.sublist (List.filter_sublist.map _)

theorem violatedBy_nodup (h : P.WellFormed) (a : Assignment) : (P.violatedBy a).Nodup :=
  (h.violatedBy_pairwise a).imp Nat.ne_of_lt

end WellFormed

end Problem

end CardinalitySearch
