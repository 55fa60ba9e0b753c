/-
CardinalitySearch.Proofs.Satisfaction.Gain — the gain of a flip by counting anew.

`Problem.gain` compares two full counts.  `gain_eq` says that the gain which a
state reads off its counts is the same number, and `lastFlip_flip` that it is
also the improvement which the flip records afterwards.

The induction is over the constraints of the problem and not over the
occurrences: a constraint without an occurrence adds nothing on either side,
since its count is the same before and after.
-/
import CardinalitySearch.Proofs.Satisfaction.Exact

namespace CardinalitySearch

/-- An assignment is given by the values it has. -/
theorem Assignment.ext_value? {a b : Assignment} (same : ∀ p, a.value? p = b.value? p) : a = b := by
  obtain ⟨values⟩ := a
  exact congrArg Assignment.mk (Array.ext_getElem? same)

/-- Toggling a proposition twice changes nothing. -/
theorem Assignment.toggle_toggle (a : Assignment) (p : Nat) : (a.toggle p).toggle p = a := by
  refine Assignment.ext_value? fun q => ?_
  by_cases same : p = q
  · simp [value?_toggle, same, Option.map_map, Function.comp_def]
  · simp [value?_toggle, same]

/-- By how much a flip lowers the number of violated constraints. -/
def Problem.gain (P : Problem) (a : Assignment) (p : Nat) : Int :=
  (P.violatedBy a).length - (P.violatedBy (a.toggle p)).length

/-- Flipping back takes away what the flip gained. -/
theorem Problem.gain_toggle (P : Problem) (a : Assignment) (p : Nat) :
    P.gain (a.toggle p) p = -P.gain a p := by
  rw [Problem.gain, Problem.gain, Assignment.toggle_toggle, Int.neg_sub]

namespace Satisfaction

variable {P : Problem} {s : Satisfaction} {a : Assignment} {p : Nat}

/-! ## One constraint -/

/-- The contribution of a constraint is small enough to be kept. -/
theorem gainAt_eq (s : Satisfaction) (P : Problem) (value : Bool) (o : WeightedOccurrence) :
    s.gainAt P value o
      = indicator (P.accepts o.constraint (s.countAfter P value o))
        - indicator (s.isSatisfied P o.constraint) := by
  have small : ∀ b c : Bool, Word.Fits (indicator b - indicator c) := by decide
  exact Arithmetic.sub_eq fun _ => small _ _

/-- One constraint changes the gain by one at most. -/
theorem natAbs_gainAt_le (s : Satisfaction) (P : Problem) (value : Bool)
    (o : WeightedOccurrence) : (s.gainAt P value o).natAbs ≤ 1 := by
  have one : ∀ b c : Bool, (indicator b - indicator c).natAbs ≤ 1 := by decide
  rw [gainAt_eq]
  exact one _ _

/-- The gain at a constraint is read off its satisfaction before and after. -/
theorem Tracks.gainAt_eq {c : Constraint} (h : s.Tracks a c) (hP : P.WellFormed)
    (hc : c ∈ P.constraints.toList) (hp : p < a.size) :
    s.gainAt P ((a.toggle p).value p) ⟨c.id, c.weight p⟩
      = indicator (c.satisfiedBy (a.toggle p)) - indicator (c.satisfiedBy a) := by
  rw [Satisfaction.gainAt_eq, isSatisfied, hP.accepts_id hc, hP.accepts_id hc,
    h.countAfter_eq hP hc hp, h.count_eq]
  rfl

/-- The violated ones among some constraints. -/
def violatedAmong (a : Assignment) (cs : List Constraint) : List Constraint :=
  cs.filter fun c => !c.satisfiedBy a

theorem length_violatedBy (P : Problem) (a : Assignment) :
    (P.violatedBy a).length = (violatedAmong a P.constraints.toList).length :=
  List.length_map _

theorem length_violatedAmong_cons (a : Assignment) (c : Constraint) (cs : List Constraint) :
    ((violatedAmong a (c :: cs)).length : Int)
      = 1 - indicator (c.satisfiedBy a) + (violatedAmong a cs).length := by
  unfold violatedAmong
  rw [List.filter_cons]
  cases c.satisfiedBy a
  · simp [indicator]
    omega
  · simp [indicator]

/-! ## All constraints -/

/-- A sum is kept if there is room for one more with each summand. -/
theorem foldl_add_gainAt {value : Bool} {os : List WeightedOccurrence} :
    ∀ {sum : Int}, (P.arithmetic = .words → sum.natAbs + os.length < 2147483648) →
      os.foldl (fun sum o => P.arithmetic.add sum (s.gainAt P value o)) sum
        = sum + os.foldr (fun o gain => s.gainAt P value o + gain) 0 := by
  induction os with
  | nil => exact fun _ => (Int.add_zero _).symm
  | cons o rest ih =>
    intro sum room
    rw [List.length_cons] at room
    have one := s.natAbs_gainAt_le P value o
    have fits : P.arithmetic = .words → Word.Fits (sum + s.gainAt P value o) := fun words =>
      Word.fits_of_natAbs_lt (by have := room words; omega)
    rw [List.foldl_cons, Arithmetic.add_eq fits, ih fun words => by have := room words; omega,
      List.foldr_cons, Int.add_assoc]

theorem gainOf_eq {value : Bool} {os : List WeightedOccurrence}
    (few : P.arithmetic = .words → os.length < 2147483648) :
    s.gainOf P value os = os.foldr (fun o gain => s.gainAt P value o + gain) 0 := by
  have room : P.arithmetic = .words → (0 : Int).natAbs + os.length < 2147483648 := by
    simpa using few
  rw [gainOf, foldl_add_gainAt room, Int.zero_add]

/-- The gains at the occurrences add up to the difference of two counts. -/
theorem foldr_gainAt (hP : P.WellFormed) (hp : p < a.size) (cs : List Constraint)
    (known : ∀ c ∈ cs, c ∈ P.constraints.toList) (tracked : ∀ c ∈ cs, s.Tracks a c) :
    (Occurrences.entries p cs).foldr
        (fun o gain => s.gainAt P ((a.toggle p).value p) o + gain) 0
      = ((violatedAmong a cs).length : Int) - (violatedAmong (a.toggle p) cs).length := by
  induction cs with
  | nil => rfl
  | cons c rest ih =>
    rw [List.forall_mem_cons] at known tracked
    have others := ih known.2 tracked.2
    rw [Occurrences.entries_cons, Arithmetic.signed_unlimited, List.foldr_append, others,
      length_violatedAmong_cons, length_violatedAmong_cons]
    -- either there is no entry and no change, or one entry that holds the change
    by_cases none : c.weight p = 0
    · have same := c.satisfiedBy_toggle hp none
      rw [none, Occurrences.entry_zero, same, List.foldr_nil]
      omega
    · have here := tracked.1.gainAt_eq hP known.1 hp
      rw [Occurrences.entry_of_ne_zero _ none, List.foldr_cons, List.foldr_nil, here]
      omega

/-- A flip records by how much the number of violated constraints falls. -/
theorem lastFlip_eq (s : Satisfaction) (P : Problem) (p : Nat) :
    (s.flip P p).lastFlip
      = some ⟨⟨p, (s.assignment.toggle p).value p⟩,
          P.arithmetic.sub s.violatedCount (s.flip P p).violatedCount⟩ :=
  rfl

namespace Exact

/-- The gain of a flip is the one that counting anew gives. -/
theorem gain_eq (h : s.Exact P) (hP : P.WellFormed) (hp : p < P.propositionCount) :
    s.gain P p = P.gain s.assignment p := by
  have sum := foldr_gainAt hP (h.inside hp) P.constraints.toList (fun _ hc => hc) h.tracks
  have few : P.arithmetic = .words →
      (P.occurrencesOf p).weighted.toList.length < 2147483648 := fun words =>
    Nat.lt_of_le_of_lt (hP.length_weighted_le hp) (hP.suits words).few
  rw [Problem.gain, length_violatedBy, length_violatedBy, ← sum, h.value_toggle hp, gain, gainOf_eq few,
    hP.weighted_occurrencesOf hp]

/-- A flip lowers the number of violated constraints by its gain. -/
theorem sub_violatedCount_flip (h : s.Exact P) (hP : P.WellFormed) (hp : p < P.propositionCount) :
    (s.violatedCount : Int) - (s.flip P p).violatedCount = P.gain s.assignment p := by
  rw [(h.flip hP hp).violatedCount_eq hP, h.violatedCount_eq hP, assignment_flip, Problem.gain]

/-- No more constraints are violated than there are. -/
theorem violatedCount_le (h : s.Exact P) (hP : P.WellFormed) :
    s.violatedCount ≤ P.constraintCount := by
  rw [h.violatedCount_eq hP, length_violatedBy]
  exact List.length_filter_le _ _

/-- The difference of two such numbers is kept. -/
theorem sub_violatedCount (h : s.Exact P) (hP : P.WellFormed) (hp : p < P.propositionCount) :
    P.arithmetic.sub s.violatedCount (s.flip P p).violatedCount
      = (s.violatedCount : Int) - (s.flip P p).violatedCount := by
  have before := h.violatedCount_le hP
  have after := (h.flip hP hp).violatedCount_le hP
  exact Arithmetic.sub_eq (hP.fits_constraintCount (by omega))

/-- A flip records its literal and the gain it had. -/
theorem lastFlip_flip (h : s.Exact P) (hP : P.WellFormed) (hp : p < P.propositionCount) :
    (s.flip P p).lastFlip
      = some ⟨⟨p, !s.assignment.value p⟩, P.gain s.assignment p⟩ := by
  rw [lastFlip_eq, h.sub_violatedCount hP hp, h.sub_violatedCount_flip hP hp, h.value_toggle hp]

/-- After a flip the gain of flipping back is the negated gain of the flip. -/
theorem gain_flip (h : s.Exact P) (hP : P.WellFormed) (hp : p < P.propositionCount) :
    (s.flip P p).gain P p = -s.gain P p := by
  rw [(h.flip hP hp).gain_eq hP hp, h.gain_eq hP hp, assignment_flip, P.gain_toggle]

end Exact

end Satisfaction

end CardinalitySearch
