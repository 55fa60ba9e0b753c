/-
CardinalitySearch.Proofs.Satisfaction.Check — when a snapshot is consistent.

A check goes through the constraints twice, once for their counts and once for
their memberships.  Either pass finds nothing exactly when every constraint has
the entry it needs and the entry is right; an exact state passes both.
-/
import CardinalitySearch.Satisfaction.Check
import CardinalitySearch.Proofs.Satisfaction.Exact

namespace CardinalitySearch

theorem Assignment.countTrue?_eq_some {a : Assignment} {ls : List Literal}
    (h : ∀ l ∈ ls, l.proposition < a.size) : a.countTrue? ls = some (a.countTrue ls) := by
  unfold countTrue?
  simpa using h

namespace Snapshot

variable (s : Snapshot)

/-- The counts of constraints pass when each is the recounted one. -/
theorem checkCounts_eq_consistent_iff (cs : List Constraint) :
    s.checkCounts cs = .consistent ↔
      ∀ c ∈ cs, ∃ count, s.assignment.countTrue? c.literals = some count ∧
        s.counts[c.id]? = some count := by
  induction cs with
  | nil => simp [checkCounts]
  | cons c rest ih =>
    rw [List.forall_mem_cons, ← ih, checkCounts]
    split
    · next actual cached counted entry =>
      by_cases same : actual = cached
      · simp [same, counted, entry]
      · simp [same, counted, entry, Ne.symm same]
    · next missing =>
      refine ⟨fun h => by simp at h, ?_⟩
      rintro ⟨⟨count, counted, entry⟩, -⟩
      exact absurd entry (missing count count counted)

/-- The memberships of constraints pass when each is what the count says. -/
theorem checkMembers_eq_consistent_iff (cs : List Constraint) :
    s.checkMembers cs = .consistent ↔
      ∀ c ∈ cs, ∃ count, s.counts[c.id]? = some count ∧
        s.members[c.id]? = some (!c.accepts count) := by
  induction cs with
  | nil => simp [checkMembers]
  | cons c rest ih =>
    rw [List.forall_mem_cons, ← ih, checkMembers]
    split
    · next cached isMember counted entry =>
      by_cases same : isMember = !c.accepts cached
      · simp [same, counted, entry]
      · simp [same, counted, entry]
    · next missing =>
      refine ⟨fun h => by simp at h, ?_⟩
      rintro ⟨⟨count, counted, entry⟩, -⟩
      exact absurd entry (missing count _ counted)

theorem check_eq_consistent_iff (P : Problem) :
    s.check P = .consistent ↔
      s.checkCounts P.constraints.toList = .consistent ∧
        s.checkMembers P.constraints.toList = .consistent := by
  unfold check
  split
  · next counts => simp [counts]
  · next other => exact ⟨fun h => (other h).elim, fun h => (other h.1).elim⟩

end Snapshot

namespace Satisfaction

variable {P : Problem} {s : Satisfaction}

theorem getElem?_members_snapshot (s : Satisfaction) {i : Nat} (h : i < P.constraintCount) :
    (s.snapshot P).members[i]? = some (s.violated.contains i) := by
  simp [snapshot, h]

/-- A recount confirms an exact state. -/
theorem Exact.check_eq (h : s.Exact P) (hP : P.WellFormed) : s.check P = .consistent := by
  refine ((s.snapshot P).check_eq_consistent_iff P).mpr ⟨?_, ?_⟩
  · rw [Snapshot.checkCounts_eq_consistent_iff]
    intro c hc
    have inside : ∀ l ∈ c.literals, l.proposition < s.assignment.size := by
      rw [h.size]
      exact (hP.admissible c hc).proposition_lt
    exact ⟨_, Assignment.countTrue?_eq_some inside, (h.tracks c hc).count⟩
  · rw [Snapshot.checkMembers_eq_consistent_iff]
    intro c hc
    have tracked := h.tracks c hc
    refine ⟨_, tracked.count, ?_⟩
    have member : s.violated.contains c.id = !c.satisfiedBy s.assignment := by
      rw [Bool.eq_iff_iff, h.coherent.contains_eq_true_iff, tracked.violated,
        Bool.not_eq_true']
    rw [getElem?_members_snapshot s (hP.id_lt hc), member]
    rfl

end Satisfaction

end CardinalitySearch
