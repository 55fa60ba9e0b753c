/-
CardinalitySearch.Proofs.Search.Reachable — searches and what can be done with them.

A search is started on a problem and then flips, steps, calls of solve and
changes of the noise level follow in any order (`Reachable`).  An interrupted
call of solve counts as well: `Action.solve` carries a number of rounds, so a
state in the middle of a call is reachable like the state at its end.

`performAll_induction` is the one induction over runs.  It asks for one action of
each kind, where a call of solve is only steps.  Every reachable search is sound by
it, and after that (`Reachable.induction`) a step may be taken to start from
a sound search.
-/
import CardinalitySearch.Search.Solve
import CardinalitySearch.Proofs.Satisfaction.Gain
import CardinalitySearch.Proofs.Search.Step

namespace CardinalitySearch

/-! ## Starting -/

theorem Assignment.size_drawValues {σ : Type} [RandomSource σ] (n : Nat) :
    ∀ (values : Array Bool) (source : σ),
      (Assignment.drawValues n values source).1.size = values.size + n := by
  induction n with
  | zero => exact fun _ _ => rfl
  | succ n ih =>
    intro values source
    rw [Assignment.drawValues, ih, Array.size_push, Nat.add_assoc, Nat.add_comm 1 n]

/-- However a search starts, each proposition has a value. -/
theorem InitialAssignment.size_assignment? {σ : Type} [RandomSource σ]
    {initial : InitialAssignment} {n : Nat} {source source' : σ} {a : Assignment}
    (h : initial.assignment? n source = some (a, source')) : a.size = n := by
  cases initial with
  | random =>
    simp only [assignment?, Option.some.injEq] at h
    obtain ⟨rfl, rfl⟩ := Prod.mk.inj h
    exact (Assignment.size_drawValues n #[] source).trans (Nat.zero_add n)
  | allFalse =>
    simp only [assignment?, Option.some.injEq] at h
    obtain ⟨rfl, rfl⟩ := Prod.mk.inj h
    exact Array.size_replicate
  | given values =>
    simp only [assignment?] at h
    split at h
    · next fits =>
      obtain ⟨rfl, rfl⟩ := Prod.mk.inj (Option.some.inj h)
      exact fits
    · simp at h

namespace Search

/-! ## Runs -/

/-- One thing to do with a search. -/
inductive Action : Type 1 where
  | flip (p : Nat)
  | step
  /-- A call of solve, looked at after at most so many rounds. -/
  | solve {τ : Type} [StopCondition τ] (condition : τ) (rounds : Nat)
  | setNoise (percent : Nat)

/-- Only propositions of the problem are flipped. -/
def Action.Valid (P : Problem) : Action → Prop
  | .flip p => p < P.propositionCount
  | _ => True

instance (P : Problem) : DecidablePred (Action.Valid P)
  | .flip p => inferInstanceAs (Decidable (p < P.propositionCount))
  | .step | @Action.solve _ _ _ _ | .setNoise _ => .isTrue trivial

variable {σ : Type}

section

variable [RandomSource σ]

/-- Does one thing with a search. -/
def perform (s : Search σ) : Action → Search σ
  | .flip p => s.flip p
  | .step => s.step
  | @Action.solve _ _ condition rounds => (s.solveWithin rounds condition).search
  | .setNoise percent => s.setNoise percent

/-- Does several things in order. -/
def performAll (s : Search σ) (actions : List Action) : Search σ :=
  actions.foldl perform s

/-- Makes a number of steps and lists after which of them nothing is violated. -/
def stepMany : Nat → Search σ → List Bool × Search σ
  | 0, s => ([], s)
  | n + 1, s =>
    let (answers, t) := stepMany n s.step
    (s.step.isSolved :: answers, t)

/-- Further steps of a search with nothing violated change nothing. -/
theorem stepMany_of_isSolved {s : Search σ} (solved : s.isSolved = true) (n : Nat) :
    (s.stepMany n).2 = s := by
  induction n with
  | zero => rfl
  | succ n ih =>
    have rest : (s.stepMany (n + 1)).2 = (s.step.stepMany n).2 := rfl
    rw [rest, step_of_isSolved solved, ih]

/-- The searches that a run on a problem passes through. -/
def Reachable (P : Problem) (s : Search σ) : Prop :=
  ∃ (settings : Settings) (initial : InitialAssignment) (source : σ) (start : Search σ)
    (actions : List Action), start? P settings initial source = some start ∧
      (∀ action ∈ actions, action.Valid P) ∧ start.performAll actions = s

/-- A run can be continued. -/
theorem Reachable.perform {P : Problem} {s : Search σ} (h : s.Reachable P) (action : Action)
    (valid : action.Valid P) : (s.perform action).Reachable P := by
  obtain ⟨settings, initial, source, s₀, actions, started, all, rfl⟩ := h
  refine ⟨settings, initial, source, s₀, actions ++ [action], started, ?_, ?_⟩
  · intro next hn
    rcases List.mem_append.mp hn with old | new
    · exact all next old
    · rw [List.mem_singleton.mp new]
      exact valid
  · rw [performAll, performAll, List.foldl_append]
    rfl

theorem Reachable.step {P : Problem} {s : Search σ} (h : s.Reachable P) : s.step.Reachable P :=
  h.perform .step trivial

/-- What every step keeps, a round keeps. -/
theorem round_induction {τ : Type} [StopCondition τ] {motive : Search σ → Prop}
    (step : ∀ s, motive s → motive s.step) {s : Search σ} (condition : τ) (h : motive s) :
    motive (s.round condition).search := by
  unfold Search.round
  split
  · exact h
  · dsimp only
    split
    · exact h
    · exact step s h

/-- What every step keeps, a call of solve keeps. -/
theorem solveWithin_induction {τ : Type} [StopCondition τ] {motive : Search σ → Prop}
    (step : ∀ s, motive s → motive s.step) (rounds : Nat) :
    ∀ {s : Search σ} (condition : τ), motive s →
      motive (s.solveWithin rounds condition).search := by
  induction rounds with
  | zero => exact fun _ h => h
  | succ rounds ih =>
    intro s condition h
    have round := round_induction step condition h
    simp only [solveWithin]
    split
    · exact ih _ round
    · exact round

/-- What every step keeps, and every flip and change of the noise level among some
actions, these actions keep. -/
theorem performAll_induction {motive : Search σ → Prop} {actions : List Action}
    (flip : ∀ s p, .flip p ∈ actions → motive s → motive (s.flip p))
    (step : ∀ s, motive s → motive s.step)
    (setNoise : ∀ s percent, .setNoise percent ∈ actions → motive s →
      motive (s.setNoise percent))
    {s : Search σ} (h : motive s) : motive (s.performAll actions) := by
  refine List.foldlRecOn actions Search.perform h fun s hs action member => ?_
  cases action with
  | flip p => exact flip s p member hs
  | step => exact step s hs
  | solve condition rounds => exact solveWithin_induction step rounds condition hs
  | setNoise percent => exact setNoise s percent member hs

end

/-! ## Soundness of every reachable search -/

variable {P : Problem} {s : Search σ}

theorem start?_eq_some [RandomSource σ] {settings : Settings} {initial : InitialAssignment}
    {source : σ} (h : start? P settings initial source = some s) :
    ∃ a source', a.size = P.propositionCount ∧ s = ofAssignment P settings a source' := by
  unfold start? at h
  rw [Option.map_eq_some_iff] at h
  obtain ⟨⟨a, source'⟩, drawn, rfl⟩ := h
  exact ⟨a, source', InitialAssignment.size_assignment? drawn, rfl⟩

theorem start?_given [RandomSource σ] (P : Problem) (settings : Settings) {a : Assignment}
    (source : σ) (size : a.size = P.propositionCount) :
    start? P settings (.given a.values) source = some (ofAssignment P settings a source) := by
  have fits : a.values.size = P.propositionCount := size
  simp [start?, InitialAssignment.assignment?, fits]

/-- A search can be started wherever each proposition gets a value. -/
theorem exists_start?_eq_some [RandomSource σ] (P : Problem) (settings : Settings)
    {initial : InitialAssignment} (source : σ)
    (fits : ∀ values, initial = .given values → values.size = P.propositionCount) :
    ∃ start, start? P settings initial source = some start := by
  unfold start? InitialAssignment.assignment?
  cases initial with
  | random => exact ⟨_, rfl⟩
  | allFalse => exact ⟨_, rfl⟩
  | given values =>
    simp only [if_pos (fits values rfl), Option.map_some]
    exact ⟨_, rfl⟩

namespace Sound

theorem flip (h : s.Sound P) {p : Nat} (hp : p < P.propositionCount) : (s.flip p).Sound P where
  problem := h.problem
  wellFormed := h.wellFormed
  exact := by
    rw [state_flip, h.problem]
    exact h.exact.flip h.wellFormed hp

/-- The gain that a search reads off is the one that counting anew gives. -/
theorem gain_eq (h : s.Sound P) {p : Nat} (hp : p < P.propositionCount) :
    s.gain p = P.gain s.state.assignment p := by
  rw [Search.gain, h.problem, h.exact.gain_eq h.wellFormed hp]

/-- A flip lowers the number of violated constraints by the gain. -/
theorem sub_violatedCount_flip (h : s.Sound P) {p : Nat} (hp : p < P.propositionCount) :
    (s.state.violatedCount : Int) - (s.flip p).state.violatedCount = s.gain p := by
  rw [state_flip, h.problem, h.exact.sub_violatedCount_flip h.wellFormed hp, h.gain_eq hp]

/-- A flip answers the gain that was read off before it. -/
theorem lastFlip_flip (h : s.Sound P) {p : Nat} (hp : p < P.propositionCount) :
    (s.flip p).state.lastFlip = some ⟨⟨p, !s.state.assignment.value p⟩, s.gain p⟩ := by
  rw [state_flip, h.problem, h.exact.lastFlip_flip h.wellFormed hp, h.gain_eq hp]

theorem setNoise (h : s.Sound P) (percent : Nat) : (s.setNoise percent).Sound P :=
  ⟨h.problem, h.wellFormed, h.exact⟩

theorem redraw {τ : Type} (h : s.Sound P) (source : τ) : (s.redraw source).Sound P :=
  ⟨h.problem, h.wellFormed, h.exact⟩

theorem adapt (h : s.Sound P) (gain : Int) : (s.adapt gain).Sound P where
  problem := by rw [problem_adapt, h.problem]
  wellFormed := h.wellFormed
  exact := by
    rw [state_adapt]
    exact h.exact

theorem randomMove (h : s.Sound P) {l : Literal} (hl : l.proposition < P.propositionCount) :
    (s.randomMove l).Sound P :=
  have flipped := h.flip hl
  ⟨flipped.problem, flipped.wellFormed, flipped.exact⟩

theorem greedyMove (h : s.Sound P) {l : Literal} (hl : l.proposition < P.propositionCount)
    (gain : Int) : (s.greedyMove l gain).Sound P where
  problem := by rw [problem_greedyMove, h.problem]
  wellFormed := h.wellFormed
  exact := by
    rw [state_greedyMove]
    exact (h.flip hl).exact

/-- The literals of a constraint are over propositions that can be flipped. -/
theorem proposition_lt (h : s.Sound P) {c : Constraint} (hc : c ∈ P.constraints.toList)
    {l : Literal} (hl : l ∈ c.literals) : l.proposition < P.propositionCount :=
  (h.wellFormed.admissible c hc).proposition_lt l hl

theorem step [InRangeSource σ] (h : s.Sound P) : s.step.Sound P := by
  have cases := h.step_cases
  generalize s.step = t at cases
  cases cases with
  | solved done => exact h
  | random unsolved known drawn picked tossed heads chosen literal =>
    exact (h.redraw _).randomMove (h.proposition_lt known (List.mem_of_getElem? literal))
  | greedy unsolved known drawn picked tossed tails best =>
    exact (h.redraw _).greedyMove (h.proposition_lt known (List.mem_of_find?_eq_some best)) _

/-- A step of an unsolved search flips a literal of a violated constraint. -/
theorem exists_flipped [InRangeSource σ] (h : s.Sound P) (unsolved : s.isSolved = false) :
    ∃ c ∈ P.constraints.toList, c.satisfiedBy s.state.assignment = false ∧
      ∃ l ∈ c.literals, s.step.state = s.state.flip P l.proposition := by
  have violated : ∀ {c : Constraint} {position : Nat}, c ∈ P.constraints.toList →
      s.state.violated.toList[position]? = some c.id → c.satisfiedBy s.state.assignment = false :=
    fun hc picked => (h.exact.tracks _ hc).violated.mp (List.mem_of_getElem? picked)
  have cases := h.step_cases
  generalize s.step = t at cases
  cases cases with
  | solved done =>
    rw [unsolved] at done
    exact absurd done Bool.false_ne_true
  | @random c l _ _ _ _ _ _ _ known _ picked _ _ _ literal =>
    refine ⟨c, known, violated known picked, l, List.mem_of_getElem? literal, ?_⟩
    rw [← h.problem]
    rfl
  | @greedy c l _ _ _ _ _ known _ picked _ _ best =>
    refine ⟨c, known, violated known picked, l, List.mem_of_find?_eq_some best, ?_⟩
    rw [← h.problem, state_greedyMove]
    rfl

theorem adaptive_step [InRangeSource σ] (h : s.Sound P) : s.step.adaptive = s.adaptive := by
  have cases := h.step_cases
  generalize s.step = t at cases
  cases cases with
  | solved => rfl
  | random => rfl
  | greedy => rw [adaptive_greedyMove, adaptive_redraw]

end Sound

theorem sound_start [RandomSource σ] (hP : P.WellFormed) {settings : Settings}
    {initial : InitialAssignment} {source : σ}
    (h : start? P settings initial source = some s) : s.Sound P := by
  obtain ⟨a, source', ha, rfl⟩ := start?_eq_some h
  exact ⟨rfl, hP, Satisfaction.exact_ofAssignment hP ha⟩

theorem Sound.performAll [InRangeSource σ] {actions : List Action} (h : s.Sound P)
    (valid : ∀ action ∈ actions, action.Valid P) : (s.performAll actions).Sound P := by
  refine performAll_induction (motive := fun t => t.Sound P) ?_ ?_ ?_ h
  · exact fun t p member ht => ht.flip (valid _ member)
  · exact fun t ht => ht.step
  · exact fun t percent _ ht => ht.setNoise percent

/-- `performAll_induction` from a sound search: what a step has to keep, it has to keep
for sound searches only. -/
theorem Sound.performAll_induction [InRangeSource σ] {motive : Search σ → Prop}
    {actions : List Action} (h : s.Sound P) (valid : ∀ action ∈ actions, action.Valid P)
    (flip : ∀ t p, .flip p ∈ actions → motive t → motive (t.flip p))
    (step : ∀ t, t.Sound P → motive t → motive t.step)
    (setNoise : ∀ t percent, .setNoise percent ∈ actions → motive t →
      motive (t.setNoise percent))
    (first : motive s) : motive (s.performAll actions) := by
  have both : (s.performAll actions).Sound P ∧ motive (s.performAll actions) := by
    refine Search.performAll_induction (motive := fun t => t.Sound P ∧ motive t) ?_ ?_ ?_
      ⟨h, first⟩
    · exact fun t p member ht => ⟨ht.1.flip (valid _ member), flip t p member ht.2⟩
    · exact fun t ht => ⟨ht.1.step, step t ht.1 ht.2⟩
    · exact fun t percent member ht => ⟨ht.1.setNoise percent, setNoise t percent member ht.2⟩
  exact both.2

/-- Every reachable search is sound. -/
theorem Reachable.sound [InRangeSource σ] (h : s.Reachable P) (hP : P.WellFormed) : s.Sound P := by
  obtain ⟨settings, initial, source, start, actions, started, valid, rfl⟩ := h
  exact (sound_start hP started).performAll valid

/-- What holds at every start and is kept by flips, steps and changes of the noise level
holds throughout. -/
theorem Reachable.induction [InRangeSource σ] (h : s.Reachable P) (hP : P.WellFormed)
    {motive : Search σ → Prop}
    (start : ∀ settings a source, motive (ofAssignment P settings a source))
    (flip : ∀ t p, motive t → motive (t.flip p))
    (step : ∀ t, t.Sound P → motive t → motive t.step)
    (setNoise : ∀ t percent, motive t → motive (t.setNoise percent)) : motive s := by
  obtain ⟨settings, initial, source, s₀, actions, started, valid, rfl⟩ := h
  have sound := sound_start hP started
  obtain ⟨a, source', -, rfl⟩ := start?_eq_some started
  exact sound.performAll_induction valid (fun t p _ => flip t p) step
    (fun t percent _ => setNoise t percent) (start settings a source')

/-! ## The noise level -/

theorem noise_adapt_le (h : s.noise.percent ≤ Noise.maximum) (gain : Int) :
    (s.adapt gain).noise.percent ≤ Noise.maximum := by
  unfold adapt
  split
  · rw [Noise.percent_adapt h]
    split
    · exact Nat.le_trans (Nat.sub_le _ _) h
    · exact Nat.min_le_right _ _
  · exact h

theorem Sound.noise_step_le [InRangeSource σ] (h : s.Sound P)
    (le : s.noise.percent ≤ Noise.maximum) : s.step.noise.percent ≤ Noise.maximum := by
  have cases := h.step_cases
  generalize s.step = t at cases
  cases cases with
  | solved => exact le
  | random => exact le
  | greedy =>
    rw [Search.greedyMove, noise_move]
    refine noise_adapt_le ?_ _
    exact le

/-- The noise level of a search never leaves the scale. -/
theorem Reachable.noise_le [InRangeSource σ] (h : s.Reachable P) (hP : P.WellFormed) :
    s.noise.percent ≤ Noise.maximum := by
  refine h.induction hP (motive := fun s => s.noise.percent ≤ Noise.maximum) ?_ ?_ ?_ ?_
  · exact fun _ _ _ => Nat.min_le_right _ _
  · exact fun _ _ le => le
  · exact fun _ ht le => ht.noise_step_le le
  · exact fun _ _ _ => Nat.min_le_right _ _

end Search

end CardinalitySearch
