/-
CardinalitySearch.Proofs.Search.Mirror — two searches that differ in polarities.

A search on the image of a problem that starts at the image of an assignment is
the image of the search on the problem, and it stays so.  For a flip and for a gain
this is shown here: new value and weights change their signs together, so the changes
of the counts are the same.  That makes the reversal of polarities a simulation
(`reversal`), which whole runs follow.
-/
import CardinalitySearch.Random.Script
import CardinalitySearch.Proofs.Problem.Mirror
import CardinalitySearch.Proofs.Search.Simulation

namespace CardinalitySearch

variable (S : Nat → Bool)

/-! ## 1. States -/

/-- The flip of the image of the literal, with the same improvement. -/
def Flip.mirror (f : Flip) : Flip :=
  ⟨f.literal.mirror S, f.improvement⟩

namespace Satisfaction

variable {P : Problem}

/-- The state with the image of the assignment and of the latest flip. -/
def mirror (s : Satisfaction) : Satisfaction :=
  { s with assignment := s.assignment.mirror S, lastFlip := s.lastFlip.map (·.mirror S) }

theorem ofAssignment_mirror (hP : P.WellFormed) {a : Assignment}
    (size : a.size = P.propositionCount) :
    ofAssignment (P.mirror S) (a.mirror S) = (ofAssignment P a).mirror S := by
  have counts : ∀ c ∈ P.constraints.toList,
      ((P.mirror S).counted (a.mirror S) ∘ fun c : Constraint => c.mirror S) c
        = P.counted a c := by
    intro c hc
    have same := a.countTrue_mirror S fun l hl =>
      size ▸ (hP.admissible c hc).proposition_lt l hl
    exact congrArg P.arithmetic.unsigned same
  unfold ofAssignment mirror
  rw [violatedBy_eq hP, violatedBy_eq (hP.mirror S), hP.violatedBy_mirror S size,
    Problem.toList_constraints_mirror, List.map_map, List.map_congr_left counts,
    Problem.constraintCount_mirror]
  rfl

theorem countAfter_mirror (s : Satisfaction) (value reversed : Bool) {o : WeightedOccurrence}
    (small : P.arithmetic = .words → o.weight.natAbs < 2147483648) :
    (s.mirror S).countAfter (P.mirror S) (value ^^ reversed) (o.mirror reversed)
      = s.countAfter P value o :=
  congrArg (P.arithmetic.adjust _) (o.change_mirror small reversed value)

theorem visit_mirror (s : Satisfaction) (value reversed : Bool) {o : WeightedOccurrence}
    (small : P.arithmetic = .words → o.weight.natAbs < 2147483648) :
    visit (P.mirror S) (value ^^ reversed) (s.mirror S) (o.mirror reversed)
      = (visit P value s o).mirror S := by
  rw [visit_eq, visit_eq, countAfter_mirror S s value reversed small, Problem.accepts_mirror]
  rfl

theorem foldl_visit_mirror (value reversed : Bool) {os : List WeightedOccurrence}
    (small : ∀ o ∈ os, P.arithmetic = .words → o.weight.natAbs < 2147483648) :
    ∀ s : Satisfaction,
      (os.map (·.mirror reversed)).foldl (visit (P.mirror S) (value ^^ reversed)) (s.mirror S)
        = (os.foldl (visit P value) s).mirror S := by
  induction os with
  | nil => exact fun _ => rfl
  | cons o rest ih =>
    intro s
    rw [List.forall_mem_cons] at small
    rw [List.map_cons, List.foldl_cons, List.foldl_cons, visit_mirror S s value reversed small.1,
      ih small.2]

/-- A flip of the image is the image of the flip. -/
theorem flip_mirror (hP : P.WellFormed) {s : Satisfaction}
    (size : s.assignment.size = P.propositionCount) {p : Nat} (hp : p < P.propositionCount) :
    (s.mirror S).flip (P.mirror S) p = (s.flip P p).mirror S := by
  have value : ((s.mirror S).assignment.toggle p).value p
      = ((s.assignment.toggle p).value p ^^ S p) := by
    have inside : p < (s.assignment.toggle p).size := by rw [Assignment.size_toggle, size]; exact hp
    rw [mirror, Assignment.toggle_mirror, Assignment.value_mirror S _ inside]
  have toggled : ({ s.mirror S with assignment := (s.mirror S).assignment.toggle p } : Satisfaction)
      = ({ s with assignment := s.assignment.toggle p } : Satisfaction).mirror S := by
    rw [mirror, mirror, Assignment.toggle_mirror]
  rw [flip_eq, flip_eq]
  dsimp only
  -- the new value and the weights change their signs together, for all visits alike
  rw [value, toggled, hP.weighted_occurrencesOf_mirror S hp,
    foldl_visit_mirror S _ _ fun o => hP.natAbs_weight_lt hp]
  rfl

theorem gainAt_mirror (s : Satisfaction) (value reversed : Bool) {o : WeightedOccurrence}
    (small : P.arithmetic = .words → o.weight.natAbs < 2147483648) :
    (s.mirror S).gainAt (P.mirror S) (value ^^ reversed) (o.mirror reversed)
      = s.gainAt P value o := by
  unfold gainAt isSatisfied
  rw [countAfter_mirror S s value reversed small, Problem.accepts_mirror, Problem.accepts_mirror]
  rfl

/-- The image has the same gains. -/
theorem gain_mirror (hP : P.WellFormed) {s : Satisfaction}
    (size : s.assignment.size = P.propositionCount) {p : Nat} (hp : p < P.propositionCount) :
    (s.mirror S).gain (P.mirror S) p = s.gain P p := by
  have value : (!(s.mirror S).assignment.value p) = (!s.assignment.value p ^^ S p) := by
    rw [mirror, Assignment.value_mirror S _ (size.symm ▸ hp), Bool.not_xor]
  unfold gain gainOf
  rw [value, hP.weighted_occurrencesOf_mirror S hp, List.foldl_map]
  refine List.foldl_ext _ _ _ fun sum o ho => ?_
  rw [gainAt_mirror S s _ _ (hP.natAbs_weight_lt hp ho)]
  rfl

end Satisfaction

/-! ## 2. Searches -/

/-- Reversing polarities takes the states in which each proposition has a value to states
of the image. -/
def Problem.WellFormed.reversal {P : Problem} (hP : P.WellFormed) :
    Simulation P (P.mirror S) where
  assignment := (·.mirror S)
  literal := (·.mirror S)
  state := (·.mirror S)
  Covers s := s.assignment.size = P.propositionCount
  wellFormed := hP
  proposition_literal := Literal.proposition_mirror S
  constraint? := P.constraint?_mirror S
  assignment_state _ := rfl
  violated_state _ := rfl
  improvement_state s := by
    cases last : s.lastFlip <;> simp [Satisfaction.mirror, Flip.mirror, last]
  covers_flip size _ := by rw [Satisfaction.assignment_flip, Assignment.size_toggle, size]
  flip_state size hp := Satisfaction.flip_mirror S hP size hp
  gain_state size hp := Satisfaction.gain_mirror S hP size hp

/-- The verdict with the image of the solution. -/
def Verdict.mirror (verdict : Verdict) : Verdict :=
  verdict.map (·.mirror S)

namespace Search

variable {σ : Type} {P : Problem} {s : Search σ}

theorem ofAssignment_mirror (hP : P.WellFormed) (settings : Settings) {a : Assignment}
    (size : a.size = P.propositionCount) (source : σ) :
    ofAssignment (P.mirror S) settings (a.mirror S) source
      = (hP.reversal S).search (ofAssignment P settings a source) := by
  rw [ofAssignment, Satisfaction.ofAssignment_mirror S hP size]
  rfl

variable [RandomSource σ]

/-- Two searches that agree in all but the values of the propositions in `S`.  What an
operation has returned is among the fields: a flip returns the latest flip, a step
whether nothing is violated. -/
structure Mirrored (s t : Search σ) : Prop where
  size : t.state.assignment.size = s.state.assignment.size
  value : ∀ p < s.state.assignment.size,
    t.state.assignment.value p = (s.state.assignment.value p ^^ S p)
  lastFlip : t.state.lastFlip = s.state.lastFlip.map fun f =>
    ⟨⟨f.literal.proposition, f.literal.positive ^^ S f.literal.proposition⟩, f.improvement⟩
  counts : t.state.counts = s.state.counts
  violated : t.state.violated.toList = s.state.violated.toList
  noise : t.noise = s.noise
  adaptive : t.adaptive = s.adaptive
  source : t.source = s.source
  counters : t.counters = s.counters
  isSolved : t.isSolved = s.isSolved
  gain : ∀ p < s.problem.propositionCount, t.gain p = s.gain p
  verdict : ∀ {τ : Type} [StopCondition τ] (condition : τ) (rounds : Nat),
    (t.solveWithin rounds condition).verdict = (s.solveWithin rounds condition).verdict.mirror S ∧
      (t.solveWithin rounds condition).condition = (s.solveWithin rounds condition).condition

theorem mirrored_reversal (hP : P.WellFormed) (h : (hP.reversal S).Applies s) :
    Mirrored S s ((hP.reversal S).search s) where
  size := Assignment.size_mirror S _
  value p hp := Assignment.value_mirror S _ hp
  lastFlip := rfl
  counts := rfl
  violated := rfl
  noise := rfl
  adaptive := rfl
  source := rfl
  counters := rfl
  isSolved := rfl
  gain p hp := Simulation.gain_search h (h.problem ▸ hp)
  verdict condition rounds := by
    rw [Simulation.solveWithin_search rounds condition h]
    exact ⟨rfl, rfl⟩

/-- For every problem there is one that is built with the polarities of the literals
over `S` reversed.  A search of it that starts at the reversed values on `S` runs as
the search of the problem does: after any flips, steps, calls of solve and changes of
the noise level in any order the two agree in the counts, the violated constraints and
their order, the improvement of the latest flip and the gains, the noise level and the
counters, in what a call of solve is going to return and in their sources, which have
then made the same draws.  Their assignments differ on the propositions in `S`. -/
theorem performAll_mirrored (steps : List Draft.Step) (settings : Settings) (source : σ) :
    let P := (Draft.ofSteps steps).build
    (∃ steps', List.Forall₂ (Draft.Step.Mirrors S P.names) steps steps') ∧
    ∀ steps', List.Forall₂ (Draft.Step.Mirrors S P.names) steps steps' →
      let P' := (Draft.ofSteps steps').build
      P'.propositionCount = P.propositionCount ∧
      ∀ a : Assignment, a.size = P.propositionCount →
        ∃ s t : Search σ, start? P settings (.given a.values) source = some s ∧
          start? P' settings (.given (a.mirror S).values) source = some t ∧
          ∀ actions : List Action, (∀ action ∈ actions, action.Valid P) →
            Mirrored S (s.performAll actions) (t.performAll actions) := by
  intro P
  have wellFormed : P.WellFormed := (Problem.Built.ofSteps steps).wellFormed
  refine ⟨Draft.exists_mirrors S P.names steps, fun steps' mirrors => ?_⟩
  intro P'
  have built : P' = P.mirror S := Draft.build_mirror S mirrors
  refine ⟨by rw [built, Problem.propositionCount_mirror], fun a size => ?_⟩
  have applies : (wellFormed.reversal S).Applies (ofAssignment P settings a source) := ⟨rfl, size⟩
  refine ⟨ofAssignment P settings a source, ofAssignment P' settings (a.mirror S) source,
    start?_given P settings source size, ?_, ?_⟩
  · rw [built]
    exact start?_given _ settings source ((a.size_mirror S).trans size)
  · intro actions valid
    obtain ⟨same, still⟩ := Simulation.performAll_search applies valid
    rw [built, ofAssignment_mirror S wellFormed settings size, same]
    exact mirrored_reversal S wellFormed still

/-- Operations of every kind, of which the one before the last adds nothing. -/
def straightSteps : List Draft.Step :=
  [.parse "[1,1] a | b | !a | !b | a", .intern "c", .addClause [⟨1, false⟩, ⟨2, true⟩],
    .addConstraint [⟨2, true⟩, ⟨0, true⟩] 2 1, .addConstraint [⟨2, false⟩, ⟨0, true⟩] 2 2]

/-- The same operations with the polarities of `a` and `c` reversed. -/
def reversedSteps : List Draft.Step :=
  [.parse "[1,1] !a | b | a | !b | !a", .intern "c", .addClause [⟨1, false⟩, ⟨2, false⟩],
    .addConstraint [⟨2, false⟩, ⟨0, false⟩] 2 1, .addConstraint [⟨2, true⟩, ⟨0, false⟩] 2 2]

/-- A random step, a flip by hand and a greedy step that lowers the noise level. -/
theorem performAll_mirrored_sample :
    let s : Search Script := ofAssignment (Draft.ofSteps straightSteps).build ⟨30, true⟩
      ⟨#[true, true, false]⟩ ⟨[0, 29, 1, 1, 30], [], []⟩
    let t : Search Script := ofAssignment (Draft.ofSteps reversedSteps).build ⟨30, true⟩
      ⟨#[false, true, true]⟩ ⟨[0, 29, 1, 1, 30], [], []⟩
    let s' := s.performAll [.step, .flip 2, .step]
    let t' := t.performAll [.step, .flip 2, .step]
    Mirrored (· != 1) s' t' ∧ s'.state.assignment = ⟨#[true, false, false]⟩ ∧
      t'.state.assignment = ⟨#[false, false, true]⟩ ∧ t'.noise = ⟨29⟩ ∧
      t'.source.draws
        = [.number 2 0, .number 100 29, .number 5 1, .number 2 1, .number 100 30] := by
  intro s t s' t'
  have mirrors : List.Forall₂ (Draft.Step.Mirrors (· != 1) (Draft.ofSteps straightSteps).names)
      straightSteps reversedSteps :=
    .cons (.parse (by decide)) <| .cons (.intern "c") <| .cons (.addClause _) <|
      .cons (.addConstraint _ 2 1) <| .cons (.addConstraint _ 2 2) .nil
  obtain ⟨-, images⟩ := performAll_mirrored (· != 1) straightSteps ⟨30, true⟩
    (⟨[0, 29, 1, 1, 30], [], []⟩ : Script)
  obtain ⟨s₀, t₀, first, second, run⟩ := (images reversedSteps mirrors).2
    ⟨#[true, true, false]⟩ (by decide)
  obtain rfl : s = s₀ := Option.some.inj first
  obtain rfl : t = t₀ := Option.some.inj second
  exact ⟨run [.step, .flip 2, .step] (by decide), by decide⟩

end Search

end CardinalitySearch
