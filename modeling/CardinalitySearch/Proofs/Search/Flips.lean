/-
CardinalitySearch.Proofs.Search.Flips — where a sequence of flips leads.

What a flip is going to answer can be read off before it, and it is what a full
count of the violated constraints gives (`gain_eq_recount`).

A flip revises what is cached, and the order of the violated constraints
depends on the way.  All else does not: after a sequence of flips a search is
determined, up to that order, by which propositions were flipped an odd number
of times, and the improvements that the flips answer add up to the difference
of the numbers of violated constraints at both ends.

Two facts carry this.  The assignment after a sequence of flips depends on the
parities alone (`toggleAll_congr`), and two exact states of one assignment
agree in all they cache (`Satisfaction.Exact.agree`).  The improvements
telescope on their own (`totalImprovement_flipMany`).

Both statements are about numbers in words on problems whose sizes fit them.  A count
that stops at an end of its scale loses what it was before: `copies_gain_missed` and
`copies_not_flipped_back` are about constraints that are too long.
-/
import CardinalitySearch.Proofs.Satisfaction.Gain
import CardinalitySearch.Proofs.Search.Copies
import CardinalitySearch.Proofs.Search.Soundness

namespace CardinalitySearch

/-! ## Assignments -/

namespace Assignment

/-- Toggles propositions in order. -/
def toggleAll (a : Assignment) (ps : List Nat) : Assignment :=
  ps.foldl toggle a

/-- A value is negated once for each time its proposition is toggled. -/
theorem value?_toggleAll (ps : List Nat) (q : Nat) :
    ∀ a : Assignment, (a.toggleAll ps).value? q
      = if ps.count q % 2 = 0 then a.value? q else (a.value? q).map (!·) := by
  induction ps with
  | nil => exact fun a => rfl
  | cons p rest ih =>
    intro a
    have step : a.toggleAll (p :: rest) = (a.toggle p).toggleAll rest := rfl
    rw [step, ih, value?_toggle]
    by_cases hit : p = q
    · subst hit
      rw [List.count_cons_self, if_pos rfl, Option.map_map]
      rcases Nat.mod_two_eq_zero_or_one (rest.count p) with even | odd
      · simp [even, Nat.add_mod]
      · simp [odd, Nat.add_mod, Function.comp_def]
    · rw [List.count_cons_of_ne hit, if_neg hit]

/-- Only the parities count. -/
theorem toggleAll_congr (a : Assignment) {ps qs : List Nat}
    (parity : ∀ p, ps.count p % 2 = qs.count p % 2) : a.toggleAll ps = a.toggleAll qs :=
  ext_value? fun p => by rw [value?_toggleAll, value?_toggleAll, parity]

end Assignment

/-! ## States of one assignment -/

namespace Satisfaction

/-- Two states that differ at most in the order of the violated constraints and
in their latest flips. -/
structure Agree (P : Problem) (s t : Satisfaction) : Prop where
  assignment : s.assignment = t.assignment
  count : ∀ i < P.constraintCount, s.count? i = t.count? i
  violated : s.violated.toList.Perm t.violated.toList
  gain : ∀ p < P.propositionCount, s.gain P p = t.gain P p

/-- What is cached is a function of the assignment. -/
theorem Exact.agree {P : Problem} {s t : Satisfaction} (hs : s.Exact P) (ht : t.Exact P)
    (hP : P.WellFormed) (same : s.assignment = t.assignment) : s.Agree P t where
  assignment := same
  count i hi := by
    obtain ⟨c, hc, rfl⟩ := hP.exists_constraint hi
    rw [(hs.tracks c hc).count, (ht.tracks c hc).count, same]
  violated := by
    have right := ht.violated_perm hP
    rw [← same] at right
    exact (hs.violated_perm hP).trans right.symm
  gain p hp := by rw [hs.gain_eq hP hp, ht.gain_eq hP hp, same]

end Satisfaction

/-- How much flips have lowered the number of violated constraints together. -/
def Flip.totalImprovement (flips : List Flip) : Int :=
  flips.foldr (fun f total => f.improvement + total) 0

namespace Search

variable {σ : Type} {P : Problem} {s : Search σ}

/-! ## One flip -/

@[simp] theorem assignment_flip (s : Search σ) (p : Nat) :
    (s.flip p).state.assignment = s.state.assignment.toggle p := by
  rw [state_flip, Satisfaction.assignment_flip]

/-- After a flip the gain of flipping back is the negated gain of the flip. -/
theorem Sound.gain_flip (h : s.Sound P) {p : Nat} (hp : p < P.propositionCount) :
    (s.flip p).gain p = -s.gain p := by
  rw [(h.flip hp).gain_eq hp, h.gain_eq hp, assignment_flip, P.gain_toggle]

/-- In every state of every run the gain that is read off for a proposition is by how
much a full count of the violated constraints falls when that proposition alone is
toggled.  Flipping it answers and records this number, and from then on the gain of
flipping it back is the opposite one.  All numbers are words, which have to fit the
sizes of the problem. -/
theorem gain_eq_recount [InRangeSource σ] (hP : P.Built .words) (small : P.FitsWords)
    (hs : s.Reachable P) {p : Nat} (hp : p < P.propositionCount) :
    let a := s.state.assignment
    let b := a.toggle p
    (b.size = a.size ∧ ∀ q, b.value q = if p = q then !a.value q else a.value q) ∧
    s.gain p = (P.constraints.toList.countP (!·.satisfiedBy a) : Int)
      - P.constraints.toList.countP (!·.satisfiedBy b) ∧
    (s.flip p).state.assignment = b ∧
    (s.flip p).state.lastFlip = some ⟨⟨p, b.value p⟩, s.gain p⟩ ∧
    (s.flip p).gain p = -s.gain p := by
  intro a b
  have sound := hs.sound (hP.wellFormed_words small)
  have inside : p < a.size := sound.exact.inside hp
  have toggled : ∀ q, b.value q = if p = q then !a.value q else a.value q :=
    a.value_toggle inside
  have recount : ∀ a : Assignment,
      (P.violatedBy a).length = P.constraints.toList.countP (!·.satisfiedBy a) := fun a => by
    rw [Problem.violatedBy, List.length_map, List.countP_eq_length_filter]
  refine ⟨⟨a.size_toggle p, toggled⟩, ?_, s.assignment_flip p, ?_, sound.gain_flip hp⟩
  · rw [← recount, ← recount]
    exact sound.gain_eq hp
  · rw [sound.lastFlip_flip hp, toggled, if_pos rfl]

theorem gain_eq_recount_sample :
    ((sampleSearch .words).performAll sampleActions).gain 2 = -1 ∧
      (((sampleSearch .words).performAll sampleActions).flip 2).gain 2 = 1 := by
  have started := reachable_performAll (A := .words) sampleActions (by decide)
  obtain ⟨-, gain, -, -, back⟩ := gain_eq_recount sampleProblem_built sampleProblem_fitsWords
    started (show 2 < (sampleProblem .words).propositionCount by decide)
  have lost : ((sampleSearch .words).performAll sampleActions).gain 2 = -1 := gain.trans (by decide)
  exact ⟨lost, by rw [back, lost]; rfl⟩

/-- In a clause of 2147483648 copies words miss the gain of making them true. -/
theorem copies_gain_missed :
    let C := Copies.least 1 2147483648
    let s := C.start false 0 (⟨[], [], []⟩ : Script)
    let a := s.state.assignment
    s.Reachable C.problem ∧ s.gain 0 = 0 ∧
      (C.problem.constraints.toList.countP (!·.satisfiedBy a) : Int)
        - C.problem.constraints.toList.countP (!·.satisfiedBy (a.toggle 0)) = 1 := by
  intro C s a
  have here : C.InState s false _ none := Copies.inState_start false 0 _
  have before : C.constraint.satisfiedBy a = false :=
    (C.satisfiedBy_constraint false).trans (by decide)
  have after : C.constraint.satisfiedBy (a.toggle 0) = true :=
    (C.satisfiedBy_constraint true).trans (by decide)
  refine ⟨Copies.reachable_start false 0 _, ?_, ?_⟩
  · rw [here.gain (Copies.keptWeight_least_ne_zero _)]
    decide
  · rw [C.toList_constraints, List.countP_singleton, List.countP_singleton, before, after]
    decide

/-! ## Sequences of flips -/

/-- Flips propositions in order and lists what the flips answer. -/
def flipMany : List Nat → Search σ → List Flip × Search σ
  | [], s => ([], s)
  | p :: ps, s =>
    let (flips, t) := flipMany ps (s.flip p)
    ((s.flip p).state.lastFlip.toList ++ flips, t)

theorem flipMany_cons (s : Search σ) (p : Nat) (ps : List Nat) :
    s.flipMany (p :: ps)
      = ((s.flip p).state.lastFlip.toList ++ ((s.flip p).flipMany ps).1,
          ((s.flip p).flipMany ps).2) :=
  rfl

theorem assignment_flipMany (ps : List Nat) :
    ∀ s : Search σ, (s.flipMany ps).2.state.assignment = s.state.assignment.toggleAll ps := by
  induction ps with
  | nil => exact fun s => rfl
  | cons p rest ih =>
    intro s
    rw [flipMany_cons, ih, state_flip, Satisfaction.assignment_flip]
    rfl

theorem Sound.flipMany {ps : List Nat} :
    ∀ {s : Search σ}, s.Sound P → (∀ p ∈ ps, p < P.propositionCount) →
      (s.flipMany ps).2.Sound P := by
  induction ps with
  | nil => exact fun h _ => h
  | cons p rest ih =>
    intro s h inside
    rw [List.forall_mem_cons] at inside
    exact ih (h.flip inside.1) inside.2

/-- Each flip answers once. -/
theorem propositions_flipMany (ps : List Nat) :
    ∀ s : Search σ, (s.flipMany ps).1.map (·.literal.proposition) = ps := by
  induction ps with
  | nil => exact fun s => rfl
  | cons p rest ih =>
    intro s
    rw [flipMany_cons, List.map_append, ih, state_flip, Satisfaction.lastFlip_eq]
    rfl

/-- The improvements add up to what the number of violated constraints has lost. -/
theorem Sound.totalImprovement_flipMany {ps : List Nat} :
    ∀ {s : Search σ}, s.Sound P → (∀ p ∈ ps, p < P.propositionCount) →
      Flip.totalImprovement (s.flipMany ps).1
        = (s.state.violatedCount : Int) - (s.flipMany ps).2.state.violatedCount := by
  induction ps with
  | nil => exact fun _ _ => (Int.sub_self _).symm
  | cons p rest ih =>
    intro s h inside
    rw [List.forall_mem_cons] at inside
    have others := ih (h.flip inside.1) inside.2
    have gained := h.sub_violatedCount_flip inside.1
    unfold Flip.totalImprovement at others ⊢
    rw [flipMany_cons, List.foldr_append, others, h.lastFlip_flip inside.1]
    simp only [Option.toList_some, List.foldr_cons, List.foldr_nil]
    omega

/-- Two sequences of flips lead to agreeing states if they lead to one assignment. -/
theorem Sound.flipMany_agree (h : s.Sound P) (ps qs : List Nat)
    (hps : ∀ p ∈ ps, p < P.propositionCount) (hqs : ∀ q ∈ qs, q < P.propositionCount)
    (same : s.state.assignment.toggleAll ps = s.state.assignment.toggleAll qs) :
    (s.flipMany ps).2.state.Agree P (s.flipMany qs).2.state := by
  refine (h.flipMany hps).exact.agree (h.flipMany hqs).exact h.wellFormed ?_
  rw [assignment_flipMany, assignment_flipMany, same]

/-- Flipping back answers the opposite. -/
theorem Sound.lastFlip_flip_flip (h : s.Sound P) {p : Nat} (hp : p < P.propositionCount) :
    ((s.flip p).flip p).state.lastFlip
      = some ⟨⟨p, s.state.assignment.value p⟩, -s.gain p⟩ := by
  rw [(h.flip hp).lastFlip_flip hp, assignment_flip, h.exact.value_toggle hp, Bool.not_not,
    h.gain_flip hp]

theorem Sound.flips_flipMany_pair (h : s.Sound P) {p : Nat} (hp : p < P.propositionCount) :
    (s.flipMany [p, p]).1
      = [⟨⟨p, !s.state.assignment.value p⟩, s.gain p⟩,
          ⟨⟨p, s.state.assignment.value p⟩, -s.gain p⟩] := by
  rw [flipMany_cons, flipMany_cons, h.lastFlip_flip hp, h.lastFlip_flip_flip hp]
  rfl

/-- Sequences of flips that flip each proposition equally often modulo two lead from
a search to agreeing states: the same assignment, counts, violated constraints and
gains.  Their improvements have one sum, the number of violated constraints before
minus the number after.  So flips commute, and a flip is undone by flipping back,
which answers the opposite improvement.  All numbers are words, which have to fit the
sizes of the problem. -/
theorem flipMany_congr [InRangeSource σ] (hP : P.Built .words) (small : P.FitsWords)
    (hs : s.Reachable P) :
    (∀ ps qs : List Nat, (∀ p ∈ ps, p < P.propositionCount) →
      (∀ q ∈ qs, q < P.propositionCount) → (∀ p, ps.count p % 2 = qs.count p % 2) →
      (s.flipMany ps).2.state.Agree P (s.flipMany qs).2.state ∧
      Flip.totalImprovement (s.flipMany ps).1 = Flip.totalImprovement (s.flipMany qs).1) ∧
    (∀ ps : List Nat, (∀ p ∈ ps, p < P.propositionCount) →
      (s.flipMany ps).1.map (·.literal.proposition) = ps ∧
      Flip.totalImprovement (s.flipMany ps).1
        = (s.state.violatedCount : Int) - (s.flipMany ps).2.state.violatedCount) ∧
    (∀ p < P.propositionCount, ∀ q < P.propositionCount,
      ((s.flip p).flip q).state.Agree P ((s.flip q).flip p).state) ∧
    (∀ p < P.propositionCount,
      ((s.flip p).flip p).state.Agree P s.state ∧
      (s.flipMany [p, p]).1
        = [⟨⟨p, !s.state.assignment.value p⟩, s.gain p⟩,
            ⟨⟨p, s.state.assignment.value p⟩, -s.gain p⟩]) := by
  have sound := hs.sound (hP.wellFormed_words small)
  refine ⟨?_, ?_, ?_, ?_⟩
  · intro ps qs hps hqs parity
    have agree := sound.flipMany_agree ps qs hps hqs (Assignment.toggleAll_congr _ parity)
    have count : (s.flipMany ps).2.state.violatedCount
        = (s.flipMany qs).2.state.violatedCount := by
      have length := agree.violated.length_eq
      rwa [SwapSet.length_toList, SwapSet.length_toList] at length
    exact ⟨agree, by
      rw [sound.totalImprovement_flipMany hps, sound.totalImprovement_flipMany hqs, count]⟩
  · exact fun ps hps => ⟨propositions_flipMany ps s, sound.totalImprovement_flipMany hps⟩
  · intro p hp q hq
    refine sound.flipMany_agree [p, q] [q, p] (by simp [hp, hq]) (by simp [hp, hq])
      (Assignment.toggleAll_congr _ fun r => ?_)
    exact congrArg (· % 2) ((List.Perm.swap q p []).count_eq r)
  · intro p hp
    refine ⟨sound.flipMany_agree [p, p] [] (by simp [hp]) (by simp) ?_,
      sound.flips_flipMany_pair hp⟩
    exact Assignment.toggle_toggle s.state.assignment p

/-- The order of the violated constraints is what two such sequences can disagree in. -/
theorem flipMany_congr_sample :
    ((sampleSearch .words).flipMany [0, 1, 0]).2.state.Agree (sampleProblem .words)
        ((sampleSearch .words).flipMany [1]).2.state ∧
      ((sampleSearch .words).flipMany [0, 1, 0]).1.map (·.improvement) = [0, 0, -1] ∧
      ((sampleSearch .words).flipMany [1]).1.map (·.improvement) = [-1] ∧
      ((sampleSearch .words).flipMany [0, 1, 0]).2.state.violated.toList = [1, 0] ∧
      ((sampleSearch .words).flipMany [1]).2.state.violated.toList = [0, 1] := by
  have parity : ∀ p, [0, 1, 0].count p % 2 = [1].count p % 2 := by
    intro p
    by_cases zero : 0 = p
    · subst zero; rfl
    · simp [List.count_cons, zero]
  have agree := (flipMany_congr sampleProblem_built sampleProblem_fitsWords
    sampleSearch_reachable).1 [0, 1, 0] [1] (by decide) (by decide) parity
  exact ⟨agree.1, by decide⟩

/-- If all of 2147483648 copies have to be true, in words flipping twice does not lead
back. -/
theorem copies_not_flipped_back :
    let C := Copies.least 2147483648 2147483648
    let s := C.start true 0 (⟨[], [], []⟩ : Script)
    s.Reachable C.problem ∧ s.state.count? 0 = some 2147483648 ∧ s.isSolved = true ∧
      ((s.flip 0).flip 0).state.count? 0 = some 0 ∧ ((s.flip 0).flip 0).isSolved = false := by
  intro C s
  have kept : C.keptWeight ≠ 0 := Copies.keptWeight_least_ne_zero _
  have here : C.InState s true _ none := Copies.inState_start true 0 _
  have twice := (here.flip kept).flip kept
  refine ⟨Copies.reachable_start true 0 _, ?_, ?_, ?_, ?_⟩
  · rw [here.state, C.count?_state]
    decide
  · rw [here.isSolved]
    decide
  · rw [twice.state, C.count?_state]
    decide
  · rw [twice.isSolved]
    decide

end Search

end CardinalitySearch
