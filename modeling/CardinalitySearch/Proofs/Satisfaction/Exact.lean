/-
CardinalitySearch.Proofs.Satisfaction.Exact — cached numbers are the recounted ones.

`Exact` says that a state is what counting its assignment anew would give.
It holds of `ofAssignment` and is kept by `flip`; nothing else changes a state.

A flip toggles the assignment first and then visits the constraints one after
the other, so in between no single assignment describes the state.  The
invariant of the visits is therefore said constraint by constraint (`Tracks`):
a constraint that is still to be visited is tracked under the old assignment,
every other one under the new assignment.  Constraints that are never visited
are of the second kind from the start, since their counts do not change.
-/
import CardinalitySearch.Satisfaction.Basic
import CardinalitySearch.Proofs.SwapSet
import CardinalitySearch.Proofs.Satisfaction.Recount

namespace CardinalitySearch.Satisfaction

/-- The state is right about one constraint under an assignment. -/
structure Tracks (s : Satisfaction) (a : Assignment) (c : Constraint) : Prop where
  count : s.count? c.id = some (a.countTrue c.literals)
  violated : c.id ∈ s.violated.toList ↔ c.satisfiedBy a = false

/-- The state is right about every constraint of a problem. -/
structure Exact (s : Satisfaction) (P : Problem) : Prop where
  size : s.assignment.size = P.propositionCount
  coherent : s.violated.Coherent
  capacity : s.violated.capacity = P.constraintCount
  tracks : ∀ c ∈ P.constraints.toList, s.Tracks s.assignment c

variable {P : Problem} {s : Satisfaction} {a : Assignment}

theorem Exact.inside (h : s.Exact P) {p : Nat} (hp : p < P.propositionCount) :
    p < s.assignment.size :=
  h.size.symm ▸ hp

/-- A proposition of the problem has the other value once it is toggled. -/
theorem Exact.value_toggle (h : s.Exact P) {p : Nat} (hp : p < P.propositionCount) :
    (s.assignment.toggle p).value p = !s.assignment.value p := by
  rw [Assignment.value_toggle _ (h.inside hp), if_pos rfl]

/-! ## One visit -/

@[simp] theorem capacity_visit (P : Problem) (value : Bool) (s : Satisfaction)
    (o : WeightedOccurrence) :
    (visit P value s o).violated.capacity = s.violated.capacity := by
  rw [visit_eq]
  dsimp only
  split <;> simp

theorem coherent_visit (h : s.violated.Coherent) (value : Bool) (o : WeightedOccurrence) :
    (visit P value s o).violated.Coherent := by
  rw [visit_eq]
  dsimp only
  split
  · exact h.remove _
  · exact h.insert _

/-- Visits never touch the assignment. -/
theorem assignment_foldl_visit (P : Problem) (value : Bool) (os : List WeightedOccurrence) :
    ∀ s : Satisfaction, (os.foldl (visit P value) s).assignment = s.assignment := by
  induction os with
  | nil => exact fun s => rfl
  | cons o rest ih => exact fun s => ih (visit P value s o)

/-- A visit changes the count of its own constraint only. -/
theorem count?_visit (P : Problem) (value : Bool) (s : Satisfaction) (o : WeightedOccurrence)
    (i : Nat) :
    (visit P value s o).count? i
      = if o.constraint = i then
          (s.count? i).map (P.arithmetic.adjust · (o.change value P.arithmetic))
        else s.count? i := by
  rw [visit_eq]
  unfold count?
  dsimp only
  rw [Array.getElem?_setIfInBounds]
  split
  · next same =>
    subst same
    by_cases inside : o.constraint < s.counts.size
    · simp [inside, countAfter, count, count?]
    · simp [inside]
  · rfl

/-- A visit drops its own constraint from the violated ones, or appends it. -/
theorem toList_violated_visit (h : s.violated.Coherent) (value : Bool) {o : WeightedOccurrence}
    (inside : o.constraint < s.violated.capacity) :
    (visit P value s o).violated.toList
      = if P.accepts o.constraint (s.countAfter P value o) then
          SwapSet.fillHole s.violated.toList o.constraint
        else SwapSet.appendNew s.violated.toList o.constraint := by
  rw [visit_eq]
  dsimp only
  split
  · exact h.toList_remove _
  · exact h.toList_insert inside

/-- The weight of the toggled proposition leads from the old count to the new. -/
theorem countTrue_add_change {p : Nat} (hp : p < a.size) (c : Constraint) :
    (a.countTrue c.literals : Int)
        + WeightedOccurrence.change ⟨c.id, c.weight p⟩ ((a.toggle p).value p)
      = (a.toggle p).countTrue c.literals := by
  have counted := a.countTrue_toggle hp c.literals
  rw [a.value_toggle hp, if_pos rfl, counted]
  unfold WeightedOccurrence.change Constraint.weight
  cases a.value p <;> simp

/-- The sum is a number of true literals again, so it is kept as well. -/
theorem adjust_countTrue (hP : P.WellFormed) {c : Constraint} (hc : c ∈ P.constraints.toList)
    {p : Nat} (hp : p < a.size) :
    P.arithmetic.adjust (a.countTrue c.literals)
        (WeightedOccurrence.change ⟨c.id, c.weight p⟩ ((a.toggle p).value p) P.arithmetic)
      = (a.toggle p).countTrue c.literals := by
  have sum := countTrue_add_change hp c
  have before : a.countTrue c.literals ≤ c.literals.length := List.countP_le_length
  have after : (a.toggle p).countTrue c.literals ≤ c.literals.length := List.countP_le_length
  have change : (WeightedOccurrence.change ⟨c.id, c.weight p⟩ ((a.toggle p).value p)).natAbs
      ≤ c.literals.length := by omega
  rw [hP.change_eq hc, Arithmetic.adjust_eq (hP.count_le hc before) (hP.fits hc change), sum,
    Int.toNat_natCast]
  rw [sum]
  exact fun words => Int.ofNat_le.mpr (hP.count_le hc after words)

namespace Tracks

variable {c : Constraint}

theorem count_eq (h : s.Tracks a c) : s.count c.id = a.countTrue c.literals := by
  rw [Satisfaction.count, h.count]
  rfl

/-- A visit of another constraint changes nothing about this one. -/
theorem visit_of_ne (h : s.Tracks a c) (coherent : s.violated.Coherent) {value : Bool}
    {o : WeightedOccurrence} (inside : o.constraint < s.violated.capacity)
    (other : o.constraint ≠ c.id) : (visit P value s o).Tracks a c where
  count := by rw [count?_visit, if_neg other, h.count]
  violated := by
    rw [toList_violated_visit coherent value inside, ← h.violated]
    split
    · simp [SwapSet.mem_fillHole coherent.nodup, Ne.symm other]
    · simp [SwapSet.mem_appendNew, Ne.symm other]

/-- The count that a visit stores is the one after the flip. -/
theorem countAfter_eq (h : s.Tracks a c) (hP : P.WellFormed) (hc : c ∈ P.constraints.toList)
    {p : Nat} (hp : p < a.size) :
    s.countAfter P ((a.toggle p).value p) ⟨c.id, c.weight p⟩
      = (a.toggle p).countTrue c.literals := by
  rw [countAfter, h.count_eq, adjust_countTrue hP hc hp]

/-- A visit takes its own constraint from the old assignment to the new. -/
theorem visit_self (h : s.Tracks a c) (hP : P.WellFormed) (hc : c ∈ P.constraints.toList)
    (coherent : s.violated.Coherent) (capacity : s.violated.capacity = P.constraintCount)
    {p : Nat} (hp : p < a.size) :
    (visit P ((a.toggle p).value p) s ⟨c.id, c.weight p⟩).Tracks (a.toggle p) c where
  count := by
    rw [count?_visit, if_pos rfl, h.count, Option.map_some, adjust_countTrue hP hc hp]
  violated := by
    rw [toList_violated_visit coherent _ (capacity ▸ hP.id_lt hc), hP.accepts_id hc,
      h.countAfter_eq hP hc hp]
    show _ ↔ c.accepts ((a.toggle p).countTrue c.literals) = false
    split
    · next ok => simp [SwapSet.mem_fillHole coherent.nodup, ok]
    · next bad => simp [SwapSet.mem_appendNew, bad]

/-- A constraint of weight zero is tracked under both assignments or neither. -/
theorem toggle_of_weight_eq_zero (h : s.Tracks a c) {p : Nat} (hp : p < a.size)
    (none : c.weight p = 0) : s.Tracks (a.toggle p) c := by
  have same : (a.toggle p).countTrue c.literals = a.countTrue c.literals :=
    (a.countTrue_toggle_eq_iff hp c.literals).mpr none
  refine ⟨same ▸ h.count, ?_⟩
  rw [h.violated, c.satisfiedBy_toggle hp none]

end Tracks

/-! ## All visits of a flip -/

/-- Visits the given constraints after a flip of `p` under the assignment `a`. -/
def visitAll (P : Problem) (a : Assignment) (p : Nat) (s : Satisfaction)
    (cs : List Constraint) : Satisfaction :=
  (cs.map fun c => ⟨c.id, c.weight p⟩).foldl (visit P ((a.toggle p).value p)) s

/-- The invariant while `pending` constraints are still to be visited. -/
structure Midway (P : Problem) (a : Assignment) (p : Nat) (s : Satisfaction)
    (pending : List Constraint) : Prop where
  coherent : s.violated.Coherent
  capacity : s.violated.capacity = P.constraintCount
  old : ∀ c ∈ pending, s.Tracks a c
  new : ∀ c ∈ P.constraints.toList, c ∉ pending → s.Tracks (a.toggle p) c

/-- One visit takes one constraint off the pending ones. -/
theorem Midway.visit {p : Nat} {c : Constraint} {rest : List Constraint}
    (h : Midway P a p s (c :: rest)) (hP : P.WellFormed) (hp : p < a.size)
    (known : ∀ d ∈ c :: rest, d ∈ P.constraints.toList)
    (distinct : ((c :: rest).map (·.id)).Nodup) :
    Midway P a p (visit P ((a.toggle p).value p) s ⟨c.id, c.weight p⟩) rest := by
  have hc : c ∈ P.constraints.toList := known c (by simp)
  have inside : c.id < s.violated.capacity := h.capacity ▸ hP.id_lt hc
  rw [List.map_cons, List.nodup_cons, List.mem_map] at distinct
  refine ⟨coherent_visit h.coherent _ _, by rw [capacity_visit, h.capacity], ?_, ?_⟩
  · intro d hd
    have other : c.id ≠ d.id := fun same => distinct.1 ⟨d, hd, same.symm⟩
    exact (h.old d (List.mem_cons_of_mem _ hd)).visit_of_ne h.coherent inside other
  · intro d hd visited
    -- what is not pending any more is the constraint of this visit or was new before
    by_cases same : d = c
    · subst same
      exact (h.old d (by simp)).visit_self hP hd h.coherent h.capacity hp
    · have other : c.id ≠ d.id := fun e => by
        have found := hP.constraint?_id hd
        rw [← e, hP.constraint?_id hc, Option.some.injEq] at found
        exact same found.symm
      exact (h.new d hd (by simp [same, visited])).visit_of_ne h.coherent inside other

/-- Induction over the visits of a flip: the invariant holds before each of them. -/
@[elab_as_elim]
theorem Midway.induction {p : Nat} (hP : P.WellFormed) (hp : p < a.size)
    {motive : Satisfaction → List Constraint → Prop}
    (done : ∀ s, Midway P a p s [] → motive s [])
    (one : ∀ s c rest, Midway P a p s (c :: rest) → c ∈ P.constraints.toList →
      motive (Satisfaction.visit P ((a.toggle p).value p) s ⟨c.id, c.weight p⟩) rest →
      motive s (c :: rest))
    {cs : List Constraint} {s : Satisfaction} (h : Midway P a p s cs)
    (known : ∀ c ∈ cs, c ∈ P.constraints.toList) (distinct : (cs.map (·.id)).Nodup) :
    motive s cs := by
  induction cs generalizing s with
  | nil => exact done s h
  | cons c rest ih =>
    have next := h.visit hP hp known distinct
    rw [List.map_cons, List.nodup_cons] at distinct
    rw [List.forall_mem_cons] at known
    exact one s c rest h known.1 (ih next known.2 distinct.2)

/-- When nothing is pending any more the new assignment is tracked throughout. -/
theorem Midway.visitAll {p : Nat} (hP : P.WellFormed) (hp : p < a.size) {cs : List Constraint}
    {s : Satisfaction} (h : Midway P a p s cs) (known : ∀ c ∈ cs, c ∈ P.constraints.toList)
    (distinct : (cs.map (·.id)).Nodup) : Midway P a p (visitAll P a p s cs) [] := by
  refine Midway.induction hP hp ?_ ?_ h known distinct
  · exact fun s h => h
  · exact fun s c rest h hc visits => visits

/-! ## Flips -/

/-- The constraints in which the occurrences of a proposition do not cancel out. -/
def touched (P : Problem) (p : Nat) : List Constraint :=
  P.constraints.toList.filter fun c => c.weight p ≠ 0

theorem mem_touched {p : Nat} {c : Constraint} :
    c ∈ touched P p ↔ c ∈ P.constraints.toList ∧ c.weight p ≠ 0 := by
  simp [touched]

theorem touched_distinct (hP : P.WellFormed) (p : Nat) :
    ((touched P p).map (·.id)).Nodup :=
  hP.distinct.sublist (List.filter_sublist.map _)

/-- A flip visits the touched constraints. -/
theorem flip_eq_visitAll (hP : P.WellFormed) (s : Satisfaction) {p : Nat}
    (hp : p < P.propositionCount) :
    s.flip P p =
      record P.arithmetic ⟨p, (s.assignment.toggle p).value p⟩ s.violatedCount
        (visitAll P s.assignment p { s with assignment := s.assignment.toggle p }
          (touched P p)) := by
  rw [flip_eq]
  dsimp only
  rw [hP.weighted_occurrencesOf hp]
  rfl

@[simp] theorem assignment_record (A : Arithmetic) (l : Literal) (before : Nat)
    (after : Satisfaction) : (record A l before after).assignment = after.assignment := rfl

@[simp] theorem violated_record (A : Arithmetic) (l : Literal) (before : Nat)
    (after : Satisfaction) : (record A l before after).violated = after.violated := rfl

@[simp] theorem assignment_flip (s : Satisfaction) (P : Problem) (p : Nat) :
    (s.flip P p).assignment = s.assignment.toggle p := by
  rw [flip_eq]
  exact assignment_foldl_visit P _ _ _

namespace Exact

/-- At the start of the visits only the touched constraints are pending. -/
theorem midway (h : s.Exact P) {p : Nat} (hp : p < P.propositionCount) :
    Midway P s.assignment p { s with assignment := s.assignment.toggle p } (touched P p) where
  coherent := h.coherent
  capacity := h.capacity
  old c hc :=
    have tracked := h.tracks c (mem_touched.mp hc).1
    ⟨tracked.count, tracked.violated⟩
  new c hc untouched :=
    have none : c.weight p = 0 := Classical.byContradiction fun some =>
      untouched (mem_touched.mpr ⟨hc, some⟩)
    have tracked := (h.tracks c hc).toggle_of_weight_eq_zero (h.inside hp) none
    ⟨tracked.count, tracked.violated⟩

/-- A flip keeps the state right. -/
theorem flip (h : s.Exact P) (hP : P.WellFormed) {p : Nat} (hp : p < P.propositionCount) :
    (s.flip P p).Exact P := by
  have done := (h.midway hp).visitAll hP (h.inside hp)
    (fun c hc => (mem_touched.mp hc).1) (touched_distinct hP p)
  rw [flip_eq_visitAll hP s hp]
  refine ⟨?_, done.coherent, done.capacity, fun c hc => ?_⟩
  · rw [assignment_record, visitAll, assignment_foldl_visit, Assignment.size_toggle, h.size]
  · have tracked := done.new c hc (by simp)
    rw [assignment_record, visitAll, assignment_foldl_visit]
    exact ⟨tracked.count, tracked.violated⟩

/-! ## What an exact state answers -/

theorem mem_violated_iff (h : s.Exact P) (hP : P.WellFormed) {i : Nat} :
    i ∈ s.violated.toList ↔ i ∈ P.violatedBy s.assignment := by
  constructor
  · intro hi
    have inside : i < P.constraintCount := h.capacity ▸ h.coherent.lt_capacity hi
    obtain ⟨c, hc, rfl⟩ := hP.exists_constraint inside
    exact (hP.id_mem_violatedBy_iff hc).mpr ((h.tracks c hc).violated.mp hi)
  · intro hi
    obtain ⟨c, hc, violated, rfl⟩ := Problem.mem_violatedBy.mp hi
    exact (h.tracks c hc).violated.mpr violated

/-- The violated set is the recounted list up to its order. -/
theorem violated_perm (h : s.Exact P) (hP : P.WellFormed) :
    s.violated.toList.Perm (P.violatedBy s.assignment) :=
  (List.perm_ext_iff_of_nodup h.coherent.nodup (hP.violatedBy_nodup _)).mpr
    fun _ => h.mem_violated_iff hP

theorem violatedCount_eq (h : s.Exact P) (hP : P.WellFormed) :
    s.violatedCount = (P.violatedBy s.assignment).length := by
  rw [← (h.violated_perm hP).length_eq, SwapSet.length_toList]
  rfl

theorem isSolved_iff (h : s.Exact P) (hP : P.WellFormed) :
    s.isSolved = true ↔ P.satisfiedBy s.assignment = true := by
  rw [isSolved, SwapSet.isEmpty_eq_true_iff, ← Problem.violatedBy_eq_nil_iff]
  have perm := h.violated_perm hP
  constructor
  · intro e; rw [e] at perm; exact perm.nil_eq.symm
  · intro e; rw [e] at perm; exact perm.eq_nil

end Exact

/-! ## The start -/

/-- The constraints that the numbers kept say are violated are those that are. -/
theorem violatedBy_eq (hP : P.WellFormed) (a : Assignment) :
    (P.constraints.toList.filter fun c => !c.accepts (P.counted a c)).map (·.id)
      = P.violatedBy a :=
  congrArg (List.map _) (List.filter_congr fun c hc => by
    rw [hP.counted_eq hc, Constraint.satisfiedBy])

theorem toList_violated_ofAssignment (hP : P.WellFormed) (a : Assignment) :
    (ofAssignment P a).violated.Coherent ∧
      (ofAssignment P a).violated.capacity = P.constraintCount ∧
      (ofAssignment P a).violated.toList = P.violatedBy a := by
  have := (SwapSet.coherent_empty P.constraintCount).foldl_insert (P.violatedBy a)
    (hP.violatedBy_nodup a) fun i hi => by
      obtain ⟨c, hc, _, rfl⟩ := Problem.mem_violatedBy.mp hi
      exact ⟨by simpa using hP.id_lt hc, by simp⟩
  simpa [ofAssignment, violatedBy_eq hP] using this

theorem exact_ofAssignment (hP : P.WellFormed) (ha : a.size = P.propositionCount) :
    (ofAssignment P a).Exact P := by
  obtain ⟨coherent, capacity, list⟩ := toList_violated_ofAssignment hP a
  refine ⟨ha, coherent, capacity, fun c hc => ⟨?_, ?_⟩⟩
  · have found : P.constraints[c.id]? = some c := hP.constraint?_id hc
    simp [count?, ofAssignment, found, hP.counted_eq hc]
  · rw [list, hP.id_mem_violatedBy_iff hc]
    rfl

end CardinalitySearch.Satisfaction
