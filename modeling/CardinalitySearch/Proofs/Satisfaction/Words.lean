/-
CardinalitySearch.Proofs.Satisfaction.Words — flips do not need more than 32 bits.

What a visit stores in words is again the number of true literals of an assignment, as
it is without limits (`adjust_countTrue`), so the two arithmetics agree before every
visit of a flip (`Midway.induction`) and at its end.

A gain has one summand for each entry of a weighted list, each of which is at most one
in size, so every partial sum is bounded by the number of entries summed up.  A list
has at most one entry for each constraint.
-/
import CardinalitySearch.Proofs.Problem.Words
import CardinalitySearch.Proofs.Satisfaction.Gain

namespace CardinalitySearch.Satisfaction

variable {P : Problem} {s : Satisfaction} {a : Assignment} {p : Nat}

/-- The state of an assignment is the same in words. -/
theorem ofAssignment_inWords (hP : P.WellFormed) (small : P.FitsWords) (a : Assignment) :
    ofAssignment P.inWords a = ofAssignment P a := by
  have counted : ∀ c ∈ P.constraints.toList, P.inWords.counted a c = P.counted a c :=
    fun c hc => ((hP.inWords small).counted_eq hc a).trans (hP.counted_eq hc a).symm
  have violated : P.constraints.toList.filter (fun c => !c.accepts (P.inWords.counted a c))
      = P.constraints.toList.filter fun c => !c.accepts (P.counted a c) :=
    List.filter_congr fun c hc => by rw [counted c hc]
  have counts := List.map_congr_left counted
  unfold ofAssignment
  exact congrArg₂ (fun counts (violated : List Constraint) => Satisfaction.mk a counts.toArray
    ((violated.map (·.id)).foldl SwapSet.insert (SwapSet.empty P.constraintCount)) none)
    counts violated

/-- What is right about the problem is right about it in words. -/
theorem Exact.inWords (h : s.Exact P) : s.Exact P.inWords :=
  ⟨h.size, h.coherent, h.capacity, h.tracks⟩

/-- Each visit of a flip is the same in words. -/
theorem Midway.visitAll_inWords {cs : List Constraint} (h : Midway P a p s cs) (hP : P.WellFormed)
    (small : P.FitsWords) (hp : p < a.size) (known : ∀ c ∈ cs, c ∈ P.constraints.toList)
    (distinct : (cs.map (·.id)).Nodup) :
    Satisfaction.visitAll P.inWords a p s cs = Satisfaction.visitAll P a p s cs := by
  refine Midway.induction hP hp ?_ ?_ h known distinct
  · exact fun _ _ => rfl
  · intro s c rest h hc visits
    have tracked := h.old c (by simp)
    have count := (tracked.countAfter_eq (hP.inWords small) hc hp).trans
      (tracked.countAfter_eq hP hc hp).symm
    have here : Satisfaction.visit P.inWords ((a.toggle p).value p) s ⟨c.id, c.weight p⟩
        = Satisfaction.visit P ((a.toggle p).value p) s ⟨c.id, c.weight p⟩ := by
      rw [visit_eq, visit_eq, count]
      rfl
    rw [Satisfaction.visitAll, List.map_cons, List.foldl_cons, here]
    exact visits

namespace Exact

theorem sub_violatedCount_inWords (h : s.Exact P) (hP : P.WellFormed) (small : P.FitsWords)
    (hp : p < P.propositionCount) :
    Word.sub s.violatedCount (s.flip P p).violatedCount
      = (s.violatedCount : Int) - (s.flip P p).violatedCount := by
  have few := small.few
  have before := h.violatedCount_le hP
  have after := (h.flip hP hp).violatedCount_le hP
  exact Word.sub_eq (Word.fits_of_natAbs_lt (by omega))

/-- A flip is the same in words. -/
theorem flip_inWords (h : s.Exact P) (hP : P.WellFormed) (small : P.FitsWords)
    (hp : p < P.propositionCount) : s.flip P.inWords p = s.flip P p := by
  have visits := (h.midway hp).visitAll_inWords hP small (h.inside hp)
    (fun c hc => (mem_touched.mp hc).1) (touched_distinct hP p)
  have improvement := (h.sub_violatedCount_inWords hP small hp).trans
    (h.sub_violatedCount hP hp).symm
  rw [flip_eq_visitAll hP s hp] at improvement ⊢
  rw [flip_eq_visitAll (hP.inWords small) s hp]
  show record .words _ _ (Satisfaction.visitAll P.inWords _ p _ (touched P p)) = _
  rw [visits]
  exact congrArg (fun improvement => Satisfaction.mk _ _ _ (some ⟨_, improvement⟩)) improvement

theorem gainAt_inWords (h : s.Exact P) (hP : P.WellFormed) (small : P.FitsWords)
    (hp : p < P.propositionCount) {o : WeightedOccurrence}
    (ho : o ∈ (P.occurrencesOf p).weighted.toList) :
    s.gainAt P.inWords (!s.assignment.value p) o = s.gainAt P (!s.assignment.value p) o := by
  obtain ⟨c, hc, rfl⟩ := hP.exists_of_mem_weighted hp ho
  rw [← h.value_toggle hp, (h.tracks c hc).gainAt_eq (hP.inWords small) hc (h.inside hp),
    (h.tracks c hc).gainAt_eq hP hc (h.inside hp)]

/-- Every partial sum of a gain is the same in words. -/
theorem gainOf_inWords (h : s.Exact P) (hP : P.WellFormed) (small : P.FitsWords)
    (hp : p < P.propositionCount) {os : List WeightedOccurrence}
    (part : os <+: (P.occurrencesOf p).weighted.toList) :
    s.gainOf P.inWords (!s.assignment.value p) os = s.gainOf P (!s.assignment.value p) os := by
  have few : os.length < 2147483648 :=
    Nat.lt_of_le_of_lt (Nat.le_trans part.length_le (hP.length_weighted_le hp)) small.few
  rw [gainOf_eq fun _ => few, gainOf_eq fun _ => few]
  refine List.foldr_ext _ _ _ fun o ho gain => ?_
  rw [h.gainAt_inWords hP small hp (part.subset ho)]

theorem gain_inWords (h : s.Exact P) (hP : P.WellFormed) (small : P.FitsWords)
    (hp : p < P.propositionCount) : s.gain P.inWords p = s.gain P p := by
  rw [h.inWords.gain_eq (hP.inWords small) hp, h.gain_eq hP hp]
  rfl

end Exact

/-! ## What is computed about a proposition -/

/-- A sum of gains is no larger than it has summands. -/
theorem natAbs_foldr_gainAt_le (s : Satisfaction) (P : Problem) (value : Bool)
    (os : List WeightedOccurrence) :
    (os.foldr (fun o gain => s.gainAt P value o + gain) 0).natAbs ≤ os.length := by
  induction os with
  | nil => exact Nat.le_refl 0
  | cons o rest ih =>
    have one := s.natAbs_gainAt_le P value o
    rw [List.foldr_cons, List.length_cons]
    omega

/-- Nothing that a gain or a flip of a proposition computes leaves its word. -/
structure ExactInWords (s : Satisfaction) (P : Problem) (p : Nat) : Prop where
  /-- A changed count lies within the constraint, and its addition does not saturate. -/
  counts : ∀ o ∈ (P.occurrencesOf p).weighted.toList, ∃ c n,
    P.constraint? o.constraint = some c ∧ s.count? o.constraint = some n ∧
      o.weight.natAbs ≤ c.literals.length ∧
      0 ≤ n + o.change (!s.assignment.value p) ∧
      n + o.change (!s.assignment.value p) ≤ c.literals.length ∧
      Word.saturatingAdd n (o.change (!s.assignment.value p) .words)
        = n + o.change (!s.assignment.value p)
  /-- There is one summand at most for each constraint. -/
  summands : (P.occurrencesOf p).weighted.toList.length ≤ P.constraintCount
  /-- Every partial sum of the gain is exact and no larger than it has summands. -/
  sums : ∀ os, os <+: (P.occurrencesOf p).weighted.toList →
    s.gainOf P.inWords (!s.assignment.value p) os = s.gainOf P (!s.assignment.value p) os ∧
      (s.gainOf P (!s.assignment.value p) os).natAbs ≤ os.length
  /-- The whole gain is one of these sums. -/
  gain : s.gain P.inWords p = s.gain P p ∧
    (s.gain P p).natAbs ≤ (P.occurrencesOf p).weighted.toList.length
  /-- An improvement is bounded as a gain is, and the difference of the sizes is exact. -/
  improvement : ∃ f, (s.flip P p).lastFlip = some f ∧
    f.improvement.natAbs ≤ (P.occurrencesOf p).weighted.toList.length ∧
    s.violatedCount ≤ P.constraintCount ∧ (s.flip P p).violatedCount ≤ P.constraintCount ∧
    Word.sub s.violatedCount (s.flip P p).violatedCount = f.improvement
  /-- The flip in words leads to the same state and records the same. -/
  flip : s.flip P.inWords p = s.flip P p

/-- This is so for every proposition in every exact state. -/
theorem Exact.exactInWords (h : s.Exact P) (hP : P.WellFormed) (small : P.FitsWords)
    (hp : p < P.propositionCount) : s.ExactInWords P p := by
  have inside : p < s.assignment.size := h.inside hp
  have few : ∀ os, os <+: (P.occurrencesOf p).weighted.toList → os.length < 2147483648 :=
    fun os part => Nat.lt_of_le_of_lt (Nat.le_trans part.length_le (hP.length_weighted_le hp))
      small.few
  have sums : ∀ os, os <+: (P.occurrencesOf p).weighted.toList →
      (s.gainOf P (!s.assignment.value p) os).natAbs ≤ os.length := fun os part => by
    rw [gainOf_eq fun _ => few os part]
    exact s.natAbs_foldr_gainAt_le P _ os
  have gain : (s.gain P p).natAbs ≤ (P.occurrencesOf p).weighted.toList.length :=
    sums _ (List.prefix_refl _)
  refine ⟨?_, hP.length_weighted_le hp, fun os part => ⟨h.gainOf_inWords hP small hp part,
    sums os part⟩, ⟨h.gain_inWords hP small hp, gain⟩, ?_, h.flip_inWords hP small hp⟩
  · intro o ho
    obtain ⟨c, hc, rfl⟩ := hP.exists_of_mem_weighted hp ho
    have sum := countTrue_add_change inside c
    have stored := adjust_countTrue (hP.inWords small) hc inside
    have after : (s.assignment.toggle p).countTrue c.literals ≤ c.literals.length :=
      List.countP_le_length
    rw [h.value_toggle hp] at sum stored
    refine ⟨c, _, hP.constraint?_id hc, (h.tracks c hc).count, c.natAbs_weight_le p, ?_⟩
    rw [sum]
    exact ⟨Int.natCast_nonneg _, Int.ofNat_le.mpr after, congrArg Int.ofNat stored⟩
  · have gained : (s.violatedCount : Int) - (s.flip P p).violatedCount = s.gain P p := by
      rw [h.sub_violatedCount_flip hP hp, h.gain_eq hP hp]
    refine ⟨_, lastFlip_eq s P p, ?_, h.violatedCount_le hP, (h.flip hP hp).violatedCount_le hP, ?_⟩
    · dsimp only
      rw [h.sub_violatedCount hP hp, gained]
      exact gain
    · dsimp only
      rw [h.sub_violatedCount_inWords hP small hp, h.sub_violatedCount hP hp]

end CardinalitySearch.Satisfaction
