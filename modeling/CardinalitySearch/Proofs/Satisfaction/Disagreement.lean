/-
CardinalitySearch.Proofs.Satisfaction.Disagreement — what a check reports.

The snapshot is any one that has an entry for everything the check may need
(`Snapshot.Complete`); its entries may be wrong at any places.  An entry is
right when it agrees with a recount of the constraint under the assignment:
`CountRight` for the number of true literals, `MemberRight` for the membership.

Either pass of the check is a search for the first constraint whose entry is
wrong (`checkCounts_eq`, `checkMembers_eq`).  The second pass reads the counts
that are cached, which is a recount only because the first pass has found
nothing; this is where the order of the passes enters.  Constraints stand in
the order of their numbers, so the first one found is the one with the least
number (`firstWrong?_constraints_eq_some_iff`).

`check_reports_first` puts this together: the check always has an outcome, it
reports a wrong count exactly if there is one and otherwise a wrong membership
exactly if there is one, each time that of the least number.
-/
import CardinalitySearch.Proofs.Satisfaction.Check

namespace CardinalitySearch

/-! ## 1. The first wrong constraint -/

section FirstWrong

variable (Right : Constraint → Prop) [DecidablePred Right]

/-- The first of the constraints that is not right. -/
def firstWrong? (cs : List Constraint) : Option Constraint :=
  cs.find? fun c => decide ¬Right c

theorem firstWrong?_cons (c : Constraint) (rest : List Constraint) :
    firstWrong? Right (c :: rest) = if Right c then firstWrong? Right rest else some c := by
  by_cases right : Right c <;> simp [firstWrong?, right]

theorem firstWrong?_eq_none_iff (cs : List Constraint) :
    firstWrong? Right cs = none ↔ ∀ c ∈ cs, Right c := by
  simp [firstWrong?]

theorem firstWrong?_isSome_iff (cs : List Constraint) :
    (∃ c, firstWrong? Right cs = some c) ↔ ∃ c ∈ cs, ¬Right c := by
  rw [← Option.isSome_iff_exists, firstWrong?, List.find?_isSome]
  simp

/-- In a problem it is the one of the least number. -/
theorem Problem.WellFormed.firstWrong?_constraints_eq_some_iff {P : Problem} (h : P.WellFormed)
    (c : Constraint) :
    firstWrong? Right P.constraints.toList = some c ↔
      ¬Right c ∧ P.constraint? c.id = some c ∧
        ∀ j < c.id, ∀ d, P.constraint? j = some d → Right d := by
  have stands : ∀ i (hi : i < P.constraints.toList.length),
      P.constraint? i = some P.constraints.toList[i] := by
    intro i hi
    rw [constraint?, ← Array.getElem?_toList, List.getElem?_eq_getElem hi]
  rw [firstWrong?, List.find?_eq_some_iff_getElem, decide_eq_true_eq]
  refine and_congr_right fun wrong => ?_
  constructor
  · rintro ⟨i, hi, rfl, before⟩
    have id : P.constraints.toList[i].id = i := (h.constraint?_eq_some_iff.mp (stands i hi)).2
    rw [id]
    refine ⟨stands i hi, fun j hj d found => ?_⟩
    rw [stands j (Nat.lt_trans hj hi), Option.some.injEq] at found
    subst found
    simpa using before j hj
  · rintro ⟨found, before⟩
    have hc : c.id < P.constraints.toList.length := by
      simpa [constraintCount] using h.id_lt (h.constraint?_eq_some_iff.mp found).1
    rw [stands c.id hc, Option.some.injEq] at found
    refine ⟨c.id, hc, found, fun j hj => ?_⟩
    simpa using before j hj _ (stands j (Nat.lt_trans hj hc))

end FirstWrong

/-- A list with an entry for each constraint has one for this constraint. -/
theorem Problem.WellFormed.getElem?_of_constraint? {P : Problem} (h : P.WellFormed)
    {c : Constraint} {i : Nat} (stands : P.constraint? i = some c) {α : Type} {entries : Array α}
    (covers : P.constraintCount ≤ entries.size) (default : α) :
    entries[c.id]? = some (entries.getD c.id default) := by
  have inside : c.id < entries.size :=
    Nat.lt_of_lt_of_le (h.id_lt (h.constraint?_eq_some_iff.mp stands).1) covers
  simp [Array.getD_eq_getD_getElem?, inside]

namespace Snapshot

/-! ## 2. Right and wrong entries -/

/-- A value for each proposition, and a count and a membership for each constraint. -/
structure Complete (s : Snapshot) (P : Problem) : Prop where
  values : P.propositionCount ≤ s.assignment.size
  counts : P.constraintCount ≤ s.counts.size
  members : P.constraintCount ≤ s.members.size

/-- The count of the constraint is the recounted one. -/
def CountRight (s : Snapshot) (c : Constraint) : Prop :=
  s.counts[c.id]? = some (s.assignment.countTrue c.literals)

/-- The constraint is listed as violated exactly if the recounted number is out of range. -/
def MemberRight (s : Snapshot) (c : Constraint) : Prop :=
  s.members[c.id]? = some true ↔
    s.assignment.countTrue c.literals < c.atLeast ∨ c.atMost < s.assignment.countTrue c.literals

instance (s : Snapshot) (c : Constraint) : Decidable (s.CountRight c) :=
  inferInstanceAs (Decidable (_ = _))

instance (s : Snapshot) (c : Constraint) : Decidable (s.MemberRight c) :=
  inferInstanceAs (Decidable (_ ↔ _))

variable {s : Snapshot} {P : Problem} {c : Constraint}

theorem countRight_iff {cached : Nat} (count : s.counts[c.id]? = some cached) :
    s.CountRight c ↔ s.assignment.countTrue c.literals = cached := by
  rw [CountRight, count, Option.some.injEq, eq_comm]

theorem memberRight_iff {isMember : Bool} (entry : s.members[c.id]? = some isMember) :
    s.MemberRight c ↔ isMember = !c.accepts (s.assignment.countTrue c.literals) := by
  have outside : s.assignment.countTrue c.literals < c.atLeast ∨
        c.atMost < s.assignment.countTrue c.literals ↔
      c.accepts (s.assignment.countTrue c.literals) = false := by
    rw [← Bool.not_eq_true, c.accepts_eq_true_iff]
    omega
  rw [MemberRight, entry, Option.some.injEq, outside]
  cases isMember <;> simp

/-! ## 3. The two passes -/

/-- The first pass looks for the first count that is wrong. -/
theorem checkCounts_eq (cs : List Constraint)
    (values : ∀ c ∈ cs, ∀ l ∈ c.literals, l.proposition < s.assignment.size)
    (counts : ∀ c ∈ cs, c.id < s.counts.size) :
    s.checkCounts cs =
      match firstWrong? s.CountRight cs with
      | none => .consistent
      | some c => .inconsistent (.staleCount c.id (s.counts.getD c.id 0)
          (s.assignment.countTrue c.literals) s.lastFlip) := by
  induction cs with
  | nil => rfl
  | cons c rest ih =>
    rw [List.forall_mem_cons] at values counts
    have count : s.counts[c.id]? = some s.counts[c.id] := Array.getElem?_eq_getElem counts.1
    rw [checkCounts, Assignment.countTrue?_eq_some values.1, count, firstWrong?_cons]
    by_cases right : s.CountRight c
    · simp only [right, (countRight_iff count).mp right, if_true, ih values.2 counts.2]
    · have other := mt (countRight_iff count).mpr right
      simp [right, other, Array.getD_eq_getD_getElem?, count]

/-- If all counts are right, the second pass looks for the first membership that is wrong. -/
theorem checkMembers_eq (cs : List Constraint) (right : ∀ c ∈ cs, s.CountRight c)
    (members : ∀ c ∈ cs, c.id < s.members.size) :
    s.checkMembers cs =
      match firstWrong? s.MemberRight cs with
      | none => .consistent
      | some c => .inconsistent (.wrongMembership c.id (s.members.getD c.id false) s.lastFlip) := by
  induction cs with
  | nil => rfl
  | cons c rest ih =>
    rw [List.forall_mem_cons] at right members
    have entry : s.members[c.id]? = some s.members[c.id] := Array.getElem?_eq_getElem members.1
    have agrees := memberRight_iff entry
    rw [checkMembers, right.1, entry, firstWrong?_cons]
    by_cases same : s.MemberRight c
    · simp only [same, agrees.mp same, if_true, ih right.2 members.2]
    · have other := mt agrees.mpr same
      simp [same, other, Array.getD_eq_getD_getElem?, entry]

namespace Complete

/-- The check reports the first wrong count, or else the first wrong membership. -/
theorem check_eq (h : s.Complete P) (hP : P.WellFormed) :
    s.check P =
      match firstWrong? s.CountRight P.constraints.toList with
      | some c => .inconsistent (.staleCount c.id (s.counts.getD c.id 0)
          (s.assignment.countTrue c.literals) s.lastFlip)
      | none =>
        match firstWrong? s.MemberRight P.constraints.toList with
        | some c => .inconsistent (.wrongMembership c.id (s.members.getD c.id false) s.lastFlip)
        | none => .consistent := by
  have values : ∀ c ∈ P.constraints.toList, ∀ l ∈ c.literals,
      l.proposition < s.assignment.size := fun c hc l hl =>
    Nat.lt_of_lt_of_le ((hP.admissible c hc).proposition_lt l hl) h.values
  have counts : ∀ c ∈ P.constraints.toList, c.id < s.counts.size := fun c hc =>
    Nat.lt_of_lt_of_le (hP.id_lt hc) h.counts
  have members : ∀ c ∈ P.constraints.toList, c.id < s.members.size := fun c hc =>
    Nat.lt_of_lt_of_le (hP.id_lt hc) h.members
  rw [check, checkCounts_eq _ values counts]
  cases found : firstWrong? s.CountRight P.constraints.toList with
  | some c => rfl
  | none =>
    dsimp only
    rw [checkMembers_eq _ ((firstWrong?_eq_none_iff _ _).mp found) members]
    cases firstWrong? s.MemberRight P.constraints.toList <;> rfl

/-! ## 4. The reports -/

theorem check_eq_consistent_iff (h : s.Complete P) (hP : P.WellFormed) :
    s.check P = .consistent ↔ ∀ c ∈ P.constraints.toList, s.CountRight c ∧ s.MemberRight c := by
  simp only [imp_and, forall_and]
  rw [h.check_eq hP, ← firstWrong?_eq_none_iff s.CountRight,
    ← firstWrong?_eq_none_iff s.MemberRight]
  cases firstWrong? s.CountRight P.constraints.toList <;>
    cases firstWrong? s.MemberRight P.constraints.toList <;> simp

/-- A count is reported if it is the first one that is wrong. -/
theorem check_eq_staleCount_iff (h : s.Complete P) (hP : P.WellFormed) (i cached actual : Nat)
    (flip : Option Literal) :
    s.check P = .inconsistent (.staleCount i cached actual flip) ↔
      flip = s.lastFlip ∧ ∃ c, P.constraint? i = some c ∧ s.counts[i]? = some cached ∧
        actual = s.assignment.countTrue c.literals ∧ cached ≠ actual ∧
        ∀ j < i, ∀ d, P.constraint? j = some d → s.CountRight d := by
  rw [h.check_eq hP]
  constructor
  · intro report
    split at report
    · next c found =>
      simp only [CheckResult.inconsistent.injEq, Inconsistency.staleCount.injEq] at report
      obtain ⟨rfl, rfl, rfl, rfl⟩ := report
      obtain ⟨wrong, stands, before⟩ :=
        (hP.firstWrong?_constraints_eq_some_iff s.CountRight c).mp found
      have count := hP.getElem?_of_constraint? stands h.counts 0
      exact ⟨rfl, c, stands, count, rfl, fun same => wrong ((countRight_iff count).mpr same.symm),
        before⟩
    · split at report <;> simp at report
  · rintro ⟨rfl, c, stands, count, rfl, differs, before⟩
    obtain rfl := (hP.constraint?_eq_some_iff.mp stands).2
    have wrong := mt (countRight_iff count).mp (Ne.symm differs)
    rw [(hP.firstWrong?_constraints_eq_some_iff s.CountRight c).mpr ⟨wrong, stands, before⟩]
    simp [Array.getD_eq_getD_getElem?, count]

/-- A membership is reported if all counts are right and it is the first one that is wrong. -/
theorem check_eq_wrongMembership_iff (h : s.Complete P) (hP : P.WellFormed) (i : Nat)
    (isMember : Bool) (flip : Option Literal) :
    s.check P = .inconsistent (.wrongMembership i isMember flip) ↔
      flip = s.lastFlip ∧ (∀ c ∈ P.constraints.toList, s.CountRight c) ∧
        ∃ c, P.constraint? i = some c ∧ s.members[i]? = some isMember ∧ ¬s.MemberRight c ∧
          ∀ j < i, ∀ d, P.constraint? j = some d → s.MemberRight d := by
  rw [h.check_eq hP]
  constructor
  · intro report
    split at report
    · simp at report
    · next counts =>
      split at report
      · next c found =>
        simp only [CheckResult.inconsistent.injEq, Inconsistency.wrongMembership.injEq] at report
        obtain ⟨rfl, rfl, rfl⟩ := report
        obtain ⟨wrong, stands, before⟩ :=
          (hP.firstWrong?_constraints_eq_some_iff s.MemberRight c).mp found
        exact ⟨rfl, (firstWrong?_eq_none_iff _ _).mp counts, c, stands,
          hP.getElem?_of_constraint? stands h.members false, wrong, before⟩
      · simp at report
  · rintro ⟨rfl, counts, c, stands, entry, wrong, before⟩
    obtain rfl := (hP.constraint?_eq_some_iff.mp stands).2
    rw [(firstWrong?_eq_none_iff _ _).mpr counts,
      (hP.firstWrong?_constraints_eq_some_iff s.MemberRight c).mpr ⟨wrong, stands, before⟩]
    simp [Array.getD_eq_getD_getElem?, entry]

end Complete

/-- The check of a snapshot, right or wrong, that has all entries.  It finds nothing
exactly if every count and every membership is right.  It reports a count exactly if
some count is wrong, whatever the memberships, and then the wrong one of the least
number; it reports a membership exactly if all counts are right and some membership
is wrong, and then the wrong one of the least number.  Both reports carry the entry
that is wrong and the latest flip, that of a count also the recounted number. -/
theorem check_reports_first (built : P.Built) (complete : s.Complete P) :
    s.check P ≠ .undefined ∧
    (s.check P = .consistent ↔
      ∀ c ∈ P.constraints.toList, s.CountRight c ∧ s.MemberRight c) ∧
    ((∃ i cached actual flip, s.check P = .inconsistent (.staleCount i cached actual flip)) ↔
      ∃ c ∈ P.constraints.toList, ¬s.CountRight c) ∧
    (∀ i cached actual flip, s.check P = .inconsistent (.staleCount i cached actual flip) ↔
      flip = s.lastFlip ∧ ∃ c, P.constraint? i = some c ∧ s.counts[i]? = some cached ∧
        actual = s.assignment.countTrue c.literals ∧ cached ≠ actual ∧
        ∀ j < i, ∀ d, P.constraint? j = some d → s.CountRight d) ∧
    ((∃ i isMember flip, s.check P = .inconsistent (.wrongMembership i isMember flip)) ↔
      (∀ c ∈ P.constraints.toList, s.CountRight c) ∧
        ∃ c ∈ P.constraints.toList, ¬s.MemberRight c) ∧
    ∀ i isMember flip, s.check P = .inconsistent (.wrongMembership i isMember flip) ↔
      flip = s.lastFlip ∧ (∀ c ∈ P.constraints.toList, s.CountRight c) ∧
        ∃ c, P.constraint? i = some c ∧ s.members[i]? = some isMember ∧ ¬s.MemberRight c ∧
          ∀ j < i, ∀ d, P.constraint? j = some d → s.MemberRight d := by
  have wellFormed := built.wellFormed
  refine ⟨?_, complete.check_eq_consistent_iff wellFormed, ?_,
    complete.check_eq_staleCount_iff wellFormed, ?_,
    complete.check_eq_wrongMembership_iff wellFormed⟩
  · rw [complete.check_eq wellFormed]
    split
    · simp
    · split <;> simp
  · rw [complete.check_eq wellFormed, ← firstWrong?_isSome_iff]
    split
    · next found => simp [found]
    · next found => split <;> simp [found]
  · rw [complete.check_eq wellFormed, ← firstWrong?_isSome_iff, ← firstWrong?_eq_none_iff]
    split
    · next found => simp [found]
    · next found => split <;> next member => simp [found, member]

/-- Three constraints under an assignment that satisfies the first two. -/
def checkedProblem : Problem :=
  (Draft.ofSteps [.parse "a | !b", .parse "[0,1] a | b | a", .parse "[2,2] b | c"]).build

/-- All memberships are wrong, and so are the counts of the second and third constraint. -/
def wrongSnapshot : Snapshot where
  assignment := ⟨#[false, false, true]⟩
  counts := #[1, 3, 2]
  members := #[true, true, false]
  lastFlip := some ⟨2, true⟩

theorem check_reports_first_sample :
    wrongSnapshot.check checkedProblem
        = .inconsistent (.staleCount 1 3 0 (some ⟨2, true⟩)) ∧
      ({ wrongSnapshot with counts := #[1, 0, 1], members := #[false, true, false] } :
          Snapshot).check checkedProblem
        = .inconsistent (.wrongMembership 1 true (some ⟨2, true⟩)) := by
  have built : checkedProblem.Built := .ofSteps _
  have first : checkedProblem.constraint? 0 = some ⟨0, [⟨0, true⟩, ⟨1, false⟩], 1, 2⟩ := by decide
  have second : checkedProblem.constraint? 1
      = some ⟨1, [⟨0, true⟩, ⟨1, true⟩, ⟨0, true⟩], 0, 1⟩ := by decide
  refine ⟨?_, ?_⟩
  · have complete : wrongSnapshot.Complete checkedProblem := ⟨by decide, by decide, by decide⟩
    refine ((check_reports_first built complete).2.2.2.1 1 3 0 _).mpr
      ⟨rfl, _, second, rfl, rfl, by decide, fun j hj d found => ?_⟩
    obtain rfl : j = 0 := by omega
    obtain rfl := Option.some.inj (first.symm.trans found)
    decide
  · refine ((check_reports_first built ⟨by decide, by decide, by decide⟩).2.2.2.2.2 1 true _).mpr
      ⟨rfl, by decide, _, second, rfl, by decide, fun j hj d found => ?_⟩
    obtain rfl : j = 0 := by omega
    obtain rfl := Option.some.inj (first.symm.trans found)
    decide

end Snapshot

end CardinalitySearch
