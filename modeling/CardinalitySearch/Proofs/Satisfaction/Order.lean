/-
CardinalitySearch.Proofs.Satisfaction.Order — the order of the violated constraints.

A position in the violated set is what a step draws, so the order of its
members decides the run.  `Problem.revise` gives that order without occurrence
lists and without cached numbers: the constraints whose recounted number
changes are taken in increasing order, one that becomes violated is appended,
and the last member takes the place of one that becomes satisfied.

`toList_violated_flip` says that this is the order a flip leaves.
-/
import CardinalitySearch.Proofs.Satisfaction.Exact

namespace CardinalitySearch

/-- The violated constraints once `c` has gone from one assignment to another. -/
def Constraint.revise (c : Constraint) (old new : Assignment) (violated : List Nat) : List Nat :=
  match c.satisfiedBy old, c.satisfiedBy new with
  | true, false => violated ++ [c.id]
  | false, true => SwapSet.fillHole violated c.id
  | _, _ => violated

/-- The constraints whose number of true literals changes, in order. -/
def Problem.changed (P : Problem) (old new : Assignment) : List Constraint :=
  P.constraints.toList.filter fun c => new.countTrue c.literals ≠ old.countTrue c.literals

/-- The violated constraints once all have gone from one assignment to another. -/
def Problem.revise (P : Problem) (old new : Assignment) (violated : List Nat) : List Nat :=
  (P.changed old new).foldl (fun violated c => c.revise old new violated) violated

namespace Satisfaction

variable {P : Problem} {s : Satisfaction} {a : Assignment} {p : Nat}

theorem touched_eq_changed (P : Problem) (hp : p < a.size) :
    touched P p = P.changed a (a.toggle p) := by
  unfold touched Problem.changed
  refine List.filter_congr fun c _ => ?_
  have same : (a.toggle p).countTrue c.literals = a.countTrue c.literals ↔ c.weight p = 0 :=
    a.countTrue_toggle_eq_iff hp c.literals
  simp [same]

/-- A visit revises the list of the violated constraints. -/
theorem Midway.toList_visit {c : Constraint} {rest : List Constraint}
    (h : Midway P a p s (c :: rest)) (hP : P.WellFormed) (hp : p < a.size)
    (hc : c ∈ P.constraints.toList) :
    (Satisfaction.visit P ((a.toggle p).value p) s ⟨c.id, c.weight p⟩).violated.toList
      = c.revise a (a.toggle p) s.violated.toList := by
  have tracked : s.Tracks a c := h.old c (by simp)
  have inside : c.id < s.violated.capacity := h.capacity ▸ hP.id_lt hc
  have accepts : P.accepts c.id ((a.toggle p).countTrue c.literals)
      = c.satisfiedBy (a.toggle p) := hP.accepts_id hc _
  rw [toList_violated_visit h.coherent _ inside, tracked.countAfter_eq hP hc hp, accepts]
  unfold Constraint.revise
  -- a constraint that stays on its side is appended where it is or removed where it is not
  cases before : c.satisfiedBy a with
  | true =>
    have absent : c.id ∉ s.violated.toList := by simp [tracked.violated, before]
    cases c.satisfiedBy (a.toggle p)
    · simp [SwapSet.appendNew, absent]
    · simp [SwapSet.fillHole, absent]
  | false =>
    have present : c.id ∈ s.violated.toList := tracked.violated.mpr before
    cases c.satisfiedBy (a.toggle p)
    · simp [SwapSet.appendNew, present]
    · simp

/-- All visits revise the list one after the other. -/
theorem Midway.toList_visitAll {cs : List Constraint} (h : Midway P a p s cs)
    (hP : P.WellFormed) (hp : p < a.size) (known : ∀ c ∈ cs, c ∈ P.constraints.toList)
    (distinct : (cs.map (·.id)).Nodup) :
    (Satisfaction.visitAll P a p s cs).violated.toList
      = cs.foldl (fun violated c => c.revise a (a.toggle p) violated) s.violated.toList := by
  refine Midway.induction hP hp ?_ ?_ h known distinct
  · exact fun s h => rfl
  · intro s c rest h hc visits
    have here := h.toList_visit hP hp hc
    rw [List.foldl_cons, ← here]
    exact visits

/-- A flip leaves the violated constraints in the revised order. -/
theorem Exact.toList_violated_flip (h : s.Exact P) (hP : P.WellFormed)
    (hp : p < P.propositionCount) :
    (s.flip P p).violated.toList
      = P.revise s.assignment (s.assignment.toggle p) s.violated.toList := by
  have inside : p < s.assignment.size := h.inside hp
  have visited := (h.midway hp).toList_visitAll hP inside
    (fun c hc => (mem_touched.mp hc).1) (touched_distinct hP p)
  rw [flip_eq_visitAll hP s hp, violated_record, visited, touched_eq_changed P inside]
  rfl

end Satisfaction

end CardinalitySearch
