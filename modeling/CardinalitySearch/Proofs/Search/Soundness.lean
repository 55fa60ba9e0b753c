/-
CardinalitySearch.Proofs.Search.Soundness — what a search says is true.

The two main statements are about every problem and every run.  What is cached
is what counting anew gives, in every state of a run, whatever the order of
flips, steps, calls of solve and changes of the noise level.  And the verdict
of a call of solve is right, although it is read off the emptiness of a cached
set: a solution satisfies every constraint, and a search that is told to stop
violates one.

The second rests on the first and on `justified_solveWithin`, which is about
the loop alone and says how a verdict and the search next to it hang together.
It is stated for numbers in words and has to ask that these can hold the sizes of
the problem: `verdict_unsound_on_copies` is a wrong verdict on one that is too large.
-/
import CardinalitySearch.Random.Script
import CardinalitySearch.Proofs.Search.Copies
import CardinalitySearch.Proofs.Search.Reachable

namespace CardinalitySearch

theorem Constraint.satisfiedBy_iff (c : Constraint) (a : Assignment) :
    c.satisfiedBy a = true ↔
      c.atLeast ≤ a.countTrue c.literals ∧ a.countTrue c.literals ≤ c.atMost :=
  c.accepts_eq_true_iff _

theorem Constraint.satisfiedBy_eq_false_iff (c : Constraint) (a : Assignment) :
    c.satisfiedBy a = false ↔
      ¬ (c.atLeast ≤ a.countTrue c.literals ∧ a.countTrue c.literals ≤ c.atMost) := by
  rw [← c.satisfiedBy_iff, Bool.not_eq_true]

theorem Problem.satisfiedBy_iff (P : Problem) (a : Assignment) :
    P.satisfiedBy a = true ↔ ∀ c ∈ P.constraints.toList,
      c.atLeast ≤ a.countTrue c.literals ∧ a.countTrue c.literals ≤ c.atMost := by
  simp only [Problem.satisfiedBy, List.all_eq_true, Constraint.satisfiedBy_iff]

namespace Search

variable {σ : Type}

/-! ## Cached numbers -/

theorem Sound.isSolved_iff {s : Search σ} {P : Problem} (h : s.Sound P) :
    s.isSolved = true ↔ P.satisfiedBy s.state.assignment = true :=
  h.exact.isSolved_iff h.wellFormed

/-- The violated set holds the constraints whose recounted number is out of range. -/
theorem Sound.mem_violated_iff {s : Search σ} {P : Problem} (h : s.Sound P) (i : Nat) :
    i ∈ s.state.violated.toList ↔ ∃ c, P.constraint? i = some c ∧
      ¬ (c.atLeast ≤ s.state.assignment.countTrue c.literals ∧
        s.state.assignment.countTrue c.literals ≤ c.atMost) := by
  rw [h.exact.mem_violated_iff h.wellFormed, Problem.mem_violatedBy]
  constructor
  · rintro ⟨c, hc, violated, rfl⟩
    exact ⟨c, h.wellFormed.constraint?_id hc, (c.satisfiedBy_eq_false_iff _).mp violated⟩
  · rintro ⟨c, found, violated⟩
    obtain ⟨hc, id⟩ := h.wellFormed.constraint?_eq_some_iff.mp found
    exact ⟨c, hc, (c.satisfiedBy_eq_false_iff _).mpr violated, id⟩

/-- In every state of every run the counts are the recounted ones, the violated
set holds the constraints whose count is out of range, each once, and the
search is solved exactly when no count is. -/
theorem reachable_exact [InRangeSource σ] {P : Problem} (hP : P.Built) {s : Search σ}
    (hs : s.Reachable P) :
    s.problem = P ∧ s.state.assignment.size = P.propositionCount ∧
    (∀ i c, P.constraint? i = some c →
      s.state.count? i = some (s.state.assignment.countTrue c.literals) ∧
      (i ∈ s.state.violated.toList ↔
        ¬ (c.atLeast ≤ s.state.assignment.countTrue c.literals ∧
          s.state.assignment.countTrue c.literals ≤ c.atMost)) ∧
      (i ∈ s.state.violated.toList ↔ s.state.isSatisfied P i = false)) ∧
    (∀ i ∈ s.state.violated.toList, i < P.constraintCount) ∧
    s.state.violated.toList.Nodup ∧
    s.state.violatedCount = (P.violatedBy s.state.assignment).length ∧
    (s.isSolved = true ↔ ∀ c ∈ P.constraints.toList,
      c.atLeast ≤ s.state.assignment.countTrue c.literals ∧
        s.state.assignment.countTrue c.literals ≤ c.atMost) := by
  have sound := hs.sound hP.wellFormed
  have exact := sound.exact
  refine ⟨sound.problem, exact.size, ?_, ?_, exact.coherent.nodup,
    exact.violatedCount_eq sound.wellFormed, ?_⟩
  · intro i c found
    obtain ⟨hc, rfl⟩ := sound.wellFormed.constraint?_eq_some_iff.mp found
    have tracked := exact.tracks c hc
    refine ⟨tracked.count, ?_, ?_⟩
    · rw [tracked.violated, c.satisfiedBy_eq_false_iff]
    · rw [tracked.violated, Satisfaction.isSatisfied, tracked.count_eq,
        sound.wellFormed.accepts_id hc]
      rfl
  · exact fun i hi => exact.capacity ▸ exact.coherent.lt_capacity hi
  · rw [sound.isSolved_iff, P.satisfiedBy_iff]

/-- A problem with a repeated and with a clashing proposition; one of the
constraints asked for has an empty range and is not added. -/
def sampleProblem (A : Arithmetic := .unlimited) : Problem :=
  (Draft.ofSteps
    [.parse "[1,1] a | a | !b", .intern "c", .addClause [⟨1, true⟩, ⟨2, true⟩],
      .addConstraint [⟨2, false⟩, ⟨0, true⟩, ⟨2, true⟩] 2 1,
      .addConstraint [⟨2, false⟩, ⟨0, true⟩, ⟨2, true⟩] 1 2] A).build A

/-- A search on it whose first step is random and whose second one is greedy. -/
def sampleSearch (A : Arithmetic := .unlimited) : Search Script :=
  ofAssignment (sampleProblem A) ⟨30, true⟩ ⟨#[true, true, false]⟩ ⟨[0, 29, 1, 1, 30], [], []⟩

/-- A run of that search with an action of every kind. -/
def sampleActions : List Action :=
  [.step, .flip 2, .solve (Limit.steps 2) 3, .setNoise 7, .flip 0]

theorem sampleProblem_built {A : Arithmetic} : (sampleProblem A).Built A := .ofSteps _

theorem sampleProblem_fitsWords : (sampleProblem .words).FitsWords := ⟨by decide, by decide⟩

theorem reachable_performAll {A : Arithmetic} (actions : List Action)
    (valid : ∀ action ∈ actions, action.Valid (sampleProblem A)) :
    ((sampleSearch A).performAll actions).Reachable (sampleProblem A) := by
  refine ⟨⟨30, true⟩, .given #[true, true, false], ⟨[0, 29, 1, 1, 30], [], []⟩, sampleSearch A,
    actions, ?_, valid, rfl⟩
  cases A <;> rfl

theorem sampleSearch_reachable {A : Arithmetic} : (sampleSearch A).Reachable (sampleProblem A) :=
  reachable_performAll [] (by simp)

theorem reachable_exact_sample :
    (sampleSearch.performAll sampleActions).state.violated.toList = [0] ∧
      (sampleSearch.performAll sampleActions).state.violatedCount
        = (sampleProblem.violatedBy
          (sampleSearch.performAll sampleActions).state.assignment).length := by
  have exact := reachable_exact sampleProblem_built
    (reachable_performAll sampleActions (by decide))
  exact ⟨by decide, exact.2.2.2.2.2.1⟩

end Search

/-! ## Verdicts -/

/-- What a verdict says about the search next to it. -/
def Run.Justified {σ τ : Type} (r : Run σ τ) : Prop :=
  match r.verdict with
  | .satisfiable solution => r.search.isSolved = true ∧ solution = r.search.state.assignment
  | .unknown => r.search.isSolved = false
  | .unfinished => True

namespace Search

variable {σ τ : Type} [RandomSource σ] [StopCondition τ]

theorem justified_round (s : Search σ) (condition : τ) : (s.round condition).Justified := by
  unfold Search.round
  cases solved : s.isSolved with
  | true => exact ⟨solved, rfl⟩
  | false =>
    rw [if_neg Bool.false_ne_true]
    dsimp only
    split
    · exact solved
    · trivial

/-- Rounds end with a justified verdict or with none. -/
theorem justified_solveWithin (rounds : Nat) :
    ∀ (s : Search σ) (condition : τ), (s.solveWithin rounds condition).Justified := by
  induction rounds with
  | zero => exact fun _ _ => trivial
  | succ rounds ih =>
    intro s condition
    simp only [solveWithin]
    split
    · exact ih _ _
    · exact s.justified_round condition

end Search

namespace Search

variable {σ τ : Type} [InRangeSource σ] [StopCondition τ]

/-- A solution found gives every proposition a value and satisfies every
constraint, and a search that stopped without one violates a constraint; both
by counting anew, whatever the condition and however many rounds were made.
On a problem that no assignment satisfies nothing ever counts as solved.  The search
counts in words, which have to fit the sizes of the problem. -/
theorem verdict_solveWithin_sound {P : Problem} (hP : P.Built .words) (small : P.FitsWords)
    {s : Search σ} (hs : s.Reachable P) (condition : τ) (rounds : Nat) :
    (∀ solution, (s.solveWithin rounds condition).verdict = .satisfiable solution →
      solution.size = P.propositionCount ∧ ∀ c ∈ P.constraints.toList,
        c.atLeast ≤ solution.countTrue c.literals ∧
          solution.countTrue c.literals ≤ c.atMost) ∧
    ((s.solveWithin rounds condition).verdict = .unknown →
      ∃ c ∈ P.constraints.toList,
        ¬ (c.atLeast ≤ (s.solveWithin rounds condition).search.state.assignment.countTrue
              c.literals ∧
            (s.solveWithin rounds condition).search.state.assignment.countTrue c.literals
              ≤ c.atMost)) ∧
    ((∀ a : Assignment, a.size = P.propositionCount → P.satisfiedBy a = false) →
      s.isSolved = false ∧ s.step.isSolved = false ∧
        ∀ solution, (s.solveWithin rounds condition).verdict ≠ .satisfiable solution) := by
  have sound := hs.sound (hP.wellFormed_words small)
  have after : (s.solveWithin rounds condition).search.Sound P :=
    solveWithin_induction (motive := fun s => s.Sound P) (fun _ h => h.step) rounds condition sound
  have justified := justified_solveWithin rounds s condition
  have satisfiable : ∀ solution,
      (s.solveWithin rounds condition).verdict = .satisfiable solution →
        solution.size = P.propositionCount ∧ P.satisfiedBy solution = true := by
    intro solution verdict
    simp only [Run.Justified, verdict] at justified
    obtain ⟨solved, rfl⟩ := justified
    exact ⟨after.exact.size, after.isSolved_iff.mp solved⟩
  refine ⟨?_, ?_, ?_⟩
  · intro solution verdict
    obtain ⟨size, satisfied⟩ := satisfiable solution verdict
    exact ⟨size, (P.satisfiedBy_iff solution).mp satisfied⟩
  · intro verdict
    simp only [Run.Justified, verdict] at justified
    rw [← Bool.not_eq_true, after.isSolved_iff, P.satisfiedBy_iff] at justified
    simpa only [Classical.not_forall, exists_prop] using justified
  · intro unsatisfiable
    have never : ∀ {t : Search σ}, t.Sound P → t.isSolved = false := by
      intro t ht
      rw [← Bool.not_eq_true, ht.isSolved_iff, unsatisfiable _ ht.exact.size]
      exact Bool.false_ne_true
    refine ⟨never sound, never sound.step, fun solution verdict => ?_⟩
    obtain ⟨size, satisfied⟩ := satisfiable solution verdict
    rw [unsatisfiable solution size] at satisfied
    exact Bool.false_ne_true satisfied

/-- One proposition that has to be true and has to be false. -/
def conflictProblem : Problem :=
  (Draft.ofSteps [.parse "a", .parse "!a"] .words).build .words

theorem satisfiedBy_conflictProblem (a : Assignment)
    (ha : a.size = conflictProblem.propositionCount) : conflictProblem.satisfiedBy a = false := by
  obtain ⟨value, rfl⟩ : ∃ value, a = ⟨#[value]⟩ := by
    obtain ⟨⟨values⟩⟩ := a
    match values, ha with
    | [value], _ => exact ⟨value, rfl⟩
  cases value <;> decide

theorem verdict_solveWithin_sound_sample :
    (((sampleSearch .words).performAll [.step, .flip 2]).solveWithin 3 (Limit.steps 2)).verdict
        = .satisfiable ⟨#[false, false, true]⟩ ∧
      (∀ c ∈ (sampleProblem .words).constraints.toList,
        c.atLeast ≤ Assignment.countTrue ⟨#[false, false, true]⟩ c.literals ∧
          Assignment.countTrue ⟨#[false, false, true]⟩ c.literals ≤ c.atMost) ∧
      (ofAssignment conflictProblem {} ⟨#[true]⟩ (⟨[], [], []⟩ : Script)).step.isSolved
        = false := by
  have verdict : (((sampleSearch .words).performAll [.step, .flip 2]).solveWithin 3
      (Limit.steps 2)).verdict = .satisfiable ⟨#[false, false, true]⟩ := by decide
  have found := verdict_solveWithin_sound sampleProblem_built sampleProblem_fitsWords
    (reachable_performAll [.step, .flip 2] (by decide)) (Limit.steps 2) 3
  have started : (ofAssignment conflictProblem {} ⟨#[true]⟩
      (⟨[], [], []⟩ : Script)).Reachable conflictProblem :=
    ⟨{}, .given #[true], ⟨[], [], []⟩, _, [], rfl, by decide, rfl⟩
  have never := verdict_solveWithin_sound (.ofSteps _) ⟨by decide, by decide⟩ started
    (Limit.steps 4) 9
  exact ⟨verdict, (found.1 _ verdict).2, (never.2.2 satisfiedBy_conflictProblem).2.1⟩

/-- If none of 2147483648 copies may be true, words report a solution after a flip has
made them all true. -/
theorem verdict_unsound_on_copies :
    let C := Copies.least 0 0
    let s := (C.start false 0 (⟨[], [], []⟩ : Script)).flip 0
    s.Reachable C.problem ∧
      (s.solveWithin 1 (Limit.steps 0)).verdict = .satisfiable ⟨#[true]⟩ ∧
      C.constraint ∈ C.problem.constraints.toList ∧
      C.constraint.atMost < (⟨#[true]⟩ : Assignment).countTrue C.constraint.literals := by
  intro C s
  have here : C.InState s true _ _ := (Copies.inState_start false 0 (⟨[], [], []⟩ : Script)).flip
    (Copies.keptWeight_least_ne_zero _)
  have solved : s.isSolved = true := by
    rw [here.isSolved]
    decide
  have verdict : (s.solveWithin 1 (Limit.steps 0)).verdict
      = .satisfiable s.state.assignment := by
    rw [solveWithin, round, if_pos solved]
  refine ⟨Copies.reachable_flip (Copies.reachable_start false 0 _), ?_, ?_, ?_⟩
  · rw [verdict, here.state]
    rfl
  · rw [C.toList_constraints]
    exact List.mem_singleton_self _
  · rw [C.countTrue_literals]
    decide

end Search

end CardinalitySearch
