/-
CardinalitySearch.Proofs.Satisfaction.Guarded — no flip of an exact state stops.

On an exact state a guarded gain or flip gives what the plain one gives, at
every level.  For a flip this has to hold between the visits as well, where
the state is exact for neither assignment: a visit needs the count of its own
constraint only, and that one is still the old count (`Midway`).
-/
import CardinalitySearch.Satisfaction.Guarded
import CardinalitySearch.Proofs.Satisfaction.Gain

namespace CardinalitySearch

/-! ## Folds that do not stop -/

section Folds

variable {α β ε : Type} {l : List α}

theorem mapM_eq_ok {f : α → Except ε β} {g : α → β} (h : ∀ a ∈ l, f a = .ok (g a)) :
    l.mapM f = .ok (l.map g) := by
  induction l with
  | nil => rfl
  | cons a rest ih =>
    rw [List.forall_mem_cons] at h
    rw [List.mapM_cons, h.1, ih h.2]
    rfl

theorem foldlM_eq_ok {f : β → α → Except ε β} {g : β → α → β}
    (h : ∀ a ∈ l, ∀ b, f b a = .ok (g b a)) (b : β) : l.foldlM f b = .ok (l.foldl g b) := by
  induction l generalizing b with
  | nil => rfl
  | cons a rest ih =>
    rw [List.forall_mem_cons] at h
    rw [List.foldlM_cons, h.1 b]
    exact ih h.2 (g b a)

end Folds

/-! ## Sets -/

namespace SwapSet

variable {s : SwapSet} {key : Nat}

theorem insertGuarded_eq (inside : key < s.capacity) :
    s.insertGuarded key = .ok (s.insert key) := by
  simp [insertGuarded, inside]

theorem foldlM_insertGuarded (keys : List Nat) :
    ∀ {s : SwapSet}, (∀ key ∈ keys, key < s.capacity) →
      keys.foldlM insertGuarded s = .ok (keys.foldl insert s) := by
  induction keys with
  | nil => exact fun _ => rfl
  | cons key rest ih =>
    intro s inside
    rw [List.forall_mem_cons] at inside
    rw [List.foldlM_cons, insertGuarded_eq inside.1]
    exact ih (by simpa using inside.2)

theorem Coherent.removeGuarded_eq (h : s.Coherent) (inside : key < s.capacity) :
    s.removeGuarded key = .ok (s.remove key) := by
  unfold removeGuarded
  cases hole : s.position? key with
  | none =>
    have same : s.remove key = s := by
      unfold SwapSet.remove
      rw [hole]
    simp [inside, same]
  | some position =>
    have present : s.members[position]? = some key := (h key position).mp hole
    have bound : position < s.size := (Array.getElem?_eq_some_iff.mp present).1
    obtain ⟨last, back⟩ : ∃ last, s.members.back? = some last := by
      have some : s.size - 1 < s.members.size := by
        unfold size at bound ⊢
        omega
      exact ⟨_, Array.back?_eq_getElem?.trans (Array.getElem?_eq_getElem some)⟩
    have lastBound : last < s.capacity :=
      h.lt_capacity (Array.mem_toList_iff.mpr (Array.mem_of_back? back))
    simp [inside, bound, back, lastBound]

end SwapSet

/-! ## The start -/

theorem Assignment.countTrueGuarded_eq {a : Assignment} {ls : List Literal}
    (h : ∀ l ∈ ls, l.proposition < a.size) : a.countTrueGuarded ls = .ok (a.countTrue ls) := by
  have values : ∀ l ∈ ls, Fault.entry (.noValue l.proposition) (a.holds? l) = .ok (a.holds l) :=
    fun l hl => by rw [a.holds?_eq_some (h l hl), Fault.entry_some]
  unfold countTrueGuarded countTrue
  rw [mapM_eq_ok values, Fault.ok_bind, List.count_eq_countP, List.countP_map]
  simp [Function.comp_def]

namespace Satisfaction

variable {P : Problem} {s : Satisfaction} {a : Assignment} {p : Nat}

theorem ofAssignmentGuarded_eq (hP : P.WellFormed) (ha : a.size = P.propositionCount) :
    ofAssignmentGuarded P a = .ok (ofAssignment P a) := by
  have counts : ∀ c ∈ P.constraints.toList,
      (Fault.require (.noCount c.id) (c.id < P.constraintCount) >>= fun _ =>
        a.countTrueGuarded c.literals >>= fun count => pure (P.arithmetic.unsigned count))
          = .ok (P.counted a c) := by
    intro c hc
    have inside : ∀ l ∈ c.literals, l.proposition < a.size :=
      ha.symm ▸ (hP.admissible c hc).proposition_lt
    simp only [hP.id_lt hc, decide_true, Fault.require_true, Fault.ok_bind,
      Assignment.countTrueGuarded_eq inside, Fault.pure_eq_ok, Problem.counted]
  have violated : ∀ i ∈ P.violatedBy a, i < (SwapSet.empty P.constraintCount).capacity := by
    intro i hi
    obtain ⟨c, hc, -, rfl⟩ := Problem.mem_violatedBy.mp hi
    simpa using hP.id_lt hc
  unfold ofAssignmentGuarded ofAssignment
  rw [mapM_eq_ok counts, Fault.ok_bind, violatedBy_eq hP,
    SwapSet.foldlM_insertGuarded _ violated]
  rfl

/-! ## One constraint -/

/-- The number of true literals under an assignment is one that is allowed. -/
theorem allows_change (hP : P.WellFormed) {c : Constraint} (hc : c ∈ P.constraints.toList)
    (hp : p < a.size) :
    c.allows (a.countTrue c.literals)
      (WeightedOccurrence.change ⟨c.id, c.weight p⟩ ((a.toggle p).value p) P.arithmetic)
        = true := by
  have le : (a.toggle p).countTrue c.literals ≤ c.literals.length := List.countP_le_length
  unfold Constraint.allows
  rw [hP.change_eq hc, countTrue_add_change hp]
  simp only [Bool.and_eq_true, decide_eq_true_eq]
  omega

namespace Tracks

variable {c : Constraint}

theorem isSatisfiedGuarded_eq (h : s.Tracks a c) (hP : P.WellFormed)
    (hc : c ∈ P.constraints.toList) :
    s.isSatisfiedGuarded P c.id = .ok (c.satisfiedBy a) := by
  unfold isSatisfiedGuarded
  rw [hP.constraint?_id hc, h.count]
  rfl

theorem changeGuarded_eq (h : s.Tracks a c) (hP : P.WellFormed)
    (hc : c ∈ P.constraints.toList) (hp : p < a.size) (level : Level) :
    s.changeGuarded level P ((a.toggle p).value p) ⟨c.id, c.weight p⟩
      = .ok ((a.toggle p).countTrue c.literals, c.satisfiedBy a, c.satisfiedBy (a.toggle p)) := by
  unfold changeGuarded
  rw [hP.constraint?_id hc, h.count]
  simp only [Fault.entry_some, Fault.ok_bind, allows_change hP hc hp, adjust_countTrue hP hc hp,
    Level.demand_true]
  rfl

theorem visitGuarded_eq (h : s.Tracks a c) (hP : P.WellFormed) (hc : c ∈ P.constraints.toList)
    (coherent : s.violated.Coherent) (capacity : s.violated.capacity = P.constraintCount)
    (hp : p < a.size) (level : Level) :
    visitGuarded level P ((a.toggle p).value p) s ⟨c.id, c.weight p⟩
      = .ok (visit P ((a.toggle p).value p) s ⟨c.id, c.weight p⟩) := by
  have inside : c.id < s.violated.capacity := capacity ▸ hP.id_lt hc
  unfold visitGuarded
  rw [h.changeGuarded_eq hP hc hp, visit_eq, h.countAfter_eq hP hc hp, hP.accepts_id hc]
  simp only [Fault.ok_bind]
  cases accepted : c.satisfiedBy (a.toggle p) with
  | true =>
    have ok : c.accepts ((a.toggle p).countTrue c.literals) = true := accepted
    simp [coherent.removeGuarded_eq inside, ok]
  | false =>
    have bad : c.accepts ((a.toggle p).countTrue c.literals) = false := accepted
    simp [SwapSet.insertGuarded_eq inside, bad]

theorem gainAtGuarded_eq (h : s.Tracks a c) (hP : P.WellFormed)
    (hc : c ∈ P.constraints.toList) (hp : p < a.size) (level : Level) :
    s.gainAtGuarded level P ((a.toggle p).value p) ⟨c.id, c.weight p⟩
      = .ok (s.gainAt P ((a.toggle p).value p) ⟨c.id, c.weight p⟩) := by
  unfold gainAtGuarded gainAt isSatisfied
  rw [h.changeGuarded_eq hP hc hp, h.countAfter_eq hP hc hp, hP.accepts_id hc, hP.accepts_id hc,
    h.count_eq]
  rfl

end Tracks

/-! ## All visits of a flip -/

/-- No visit stops, though the state is exact for neither assignment on the way. -/
theorem Midway.foldlM_visitGuarded {cs : List Constraint} (h : Midway P a p s cs)
    (hP : P.WellFormed) (hp : p < a.size) (level : Level)
    (known : ∀ c ∈ cs, c ∈ P.constraints.toList) (distinct : (cs.map (·.id)).Nodup) :
    (cs.map fun c => (⟨c.id, c.weight p⟩ : WeightedOccurrence)).foldlM
        (visitGuarded level P ((a.toggle p).value p)) s
      = .ok (Satisfaction.visitAll P a p s cs) := by
  refine Midway.induction hP hp ?_ ?_ h known distinct
  · exact fun s h => rfl
  · intro s c rest h hc visits
    have here := (h.old c (by simp)).visitGuarded_eq hP hc h.coherent h.capacity hp level
    rw [List.map_cons, List.foldlM_cons, here]
    exact visits

end Satisfaction

namespace Satisfaction.Exact

variable {P : Problem} {s : Satisfaction} {p : Nat}

theorem value?_eq (h : s.Exact P) (hp : p < P.propositionCount) :
    s.assignment.value? p = some (s.assignment.value p) := by
  have inside : p < s.assignment.size := h.inside hp
  unfold Assignment.size at inside
  simp [Assignment.value, Assignment.value?, inside]

/-- The gain of a proposition can be computed. -/
theorem gainGuarded_eq (h : s.Exact P) (hP : P.WellFormed) (hp : p < P.propositionCount)
    (level : Level) : s.gainGuarded level P p = .ok (s.gain P p) := by
  have each : ∀ o ∈ (P.occurrencesOf p).weighted.toList,
      s.gainAtGuarded level P (!s.assignment.value p) o
        = .ok (s.gainAt P (!s.assignment.value p) o) := by
    intro o ho
    obtain ⟨c, hc, rfl⟩ := hP.exists_of_mem_weighted hp ho
    rw [← h.value_toggle hp]
    exact (h.tracks c hc).gainAtGuarded_eq hP hc (h.inside hp) level
  unfold gainGuarded gain gainOf
  rw [h.value?_eq hp, hP.getElem?_occurrences hp]
  simp only [Fault.entry_some, Fault.ok_bind, mapM_eq_ok each, Fault.pure_eq_ok, List.foldl_map]

/-- A flip can be made, and flipping back would undo what it improved. -/
theorem flipGuarded_eq (h : s.Exact P) (hP : P.WellFormed) (hp : p < P.propositionCount)
    (level : Level) : s.flipGuarded level P p = .ok (s.flip P p) := by
  have inside : p < s.assignment.size := h.inside hp
  have entries : (P.occurrencesOf p).weighted.toList
      = (touched P p).map fun c => (⟨c.id, c.weight p⟩ : WeightedOccurrence) :=
    hP.weighted_occurrencesOf hp
  have visits := (h.midway hp).foldlM_visitGuarded hP inside level
    (fun c hc => (mem_touched.mp hc).1) (touched_distinct hP p)
  have back := (h.flip hP hp).gainGuarded_eq hP hp level
  have small : (-P.gain s.assignment p).natAbs ≤ P.constraintCount := by
    have before := h.violatedCount_le hP
    have after := (h.flip hP hp).violatedCount_le hP
    have gained := h.sub_violatedCount_flip hP hp
    omega
  have undone : (s.flip P p).gain P p
      = P.arithmetic.neg (P.arithmetic.sub s.violatedCount (s.flip P p).violatedCount) := by
    rw [h.gain_flip hP hp, h.sub_violatedCount hP hp, h.sub_violatedCount_flip hP hp,
      h.gain_eq hP hp, Arithmetic.neg_eq (hP.fits_constraintCount small)]
  rw [flip_eq_visitAll hP s hp] at back undone ⊢
  unfold flipGuarded
  rw [h.value?_eq hp, hP.getElem?_occurrences hp]
  simp only [Fault.entry_some, Fault.ok_bind, ← h.value_toggle hp, entries, visits, back,
    Except.map, undone, beq_self_eq_true, Level.demand_true, Fault.pure_eq_ok]

end Satisfaction.Exact

end CardinalitySearch
