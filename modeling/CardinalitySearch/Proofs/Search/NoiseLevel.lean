/-
CardinalitySearch.Proofs.Search.NoiseLevel — what moves the noise level.

The level is set by hand, or it adapts after a greedy choice.  An adaptation
that moves the level is counted, once and as what it was, and one that finds the
level at the end of the scale is not.  So the level less the increases plus the
decreases stays the same (`baseLevel`) until the level is set by hand, and there
are no more adaptations than greedy moves.

Nothing adapts where adaptation is off or where no flip was made before
(`Still`): there a step leaves the level and its counters alone.
-/
import CardinalitySearch.Proofs.Search.Counters

namespace CardinalitySearch

/-! ## Adaptations -/

/-- An adaptation keeps the level, or moves it by one within the scale. -/
theorem Noise.adapt_cases (n : Noise) (gain improvement : Int) :
    n.adapt gain improvement = (n, .unchanged) ∨
      (0 < n.percent ∧ n.adapt gain improvement = (⟨n.percent - 1⟩, .decreased)) ∨
      n.adapt gain improvement = (⟨n.percent + 1⟩, .increased) := by
  unfold adapt
  split
  · split
    · exact .inl rfl
    · next notZero => exact .inr (.inl ⟨Nat.pos_of_ne_zero notZero, rfl⟩)
  · split
    · exact .inl rfl
    · exact .inr (.inr rfl)

/-- The adaptations that moved the level. -/
def Counters.adaptations (c : Counters) : Nat :=
  c.noiseIncreases + c.noiseDecreases

namespace Search

variable {σ : Type} {P : Problem} {s : Search σ}

/-- The noise level less what the counted adaptations have added to it. -/
def baseLevel (s : Search σ) : Int :=
  s.noise.percent - s.counters.noiseIncreases + s.counters.noiseDecreases

/-- The level does not adapt to the next move. -/
def Still (s : Search σ) : Prop :=
  s.adaptive = false ∨ s.state.lastFlip = none

theorem Still.adapt_eq_self (still : s.Still) (gain : Int) : s.adapt gain = s := by
  unfold adapt
  split
  · next last adapts flipped =>
    rcases still with off | none
    · simp [adapts] at off
    · simp [flipped] at none
  · rfl

/-- An adaptation of a search does nothing, or it moves the level by one and counts that. -/
theorem adapt_cases (s : Search σ) (gain : Int) :
    s.adapt gain = s ∨
      (0 < s.noise.percent ∧ s.adapt gain = { s with
        noise := ⟨s.noise.percent - 1⟩, counters := s.counters.record .decreased }) ∨
      s.adapt gain = { s with
        noise := ⟨s.noise.percent + 1⟩, counters := s.counters.record .increased } := by
  unfold adapt
  split
  · next last _ _ =>
    rcases s.noise.adapt_cases gain last.improvement with kept | ⟨positive, lowered⟩ | raised
    · rw [kept]
      exact .inl rfl
    · rw [lowered]
      exact .inr (.inl ⟨positive, rfl⟩)
    · rw [raised]
      exact .inr (.inr rfl)
  · exact .inl rfl

/-- What an adaptation adds to the level it counts. -/
theorem baseLevel_adapt (s : Search σ) (gain : Int) : (s.adapt gain).baseLevel = s.baseLevel := by
  rcases s.adapt_cases gain with same | ⟨positive, lowered⟩ | raised
  · rw [same]
  · simp only [lowered, baseLevel, Counters.record]
    omega
  · simp only [raised, baseLevel, Counters.record]
    omega

theorem adaptations_adapt_le (s : Search σ) (gain : Int) :
    (s.adapt gain).counters.adaptations ≤ s.counters.adaptations + 1 := by
  rcases s.adapt_cases gain with same | ⟨-, lowered⟩ | raised
  · rw [same]
    omega
  · simp only [lowered, Counters.adaptations, Counters.record]
    omega
  · simp only [raised, Counters.adaptations, Counters.record]
    omega

theorem greedyMoves_adapt (s : Search σ) (gain : Int) :
    (s.adapt gain).counters.greedyMoves = s.counters.greedyMoves := by
  rcases s.adapt_cases gain with same | ⟨-, lowered⟩ | raised
  · rw [same]
  · rw [lowered]
    rfl
  · rw [raised]
    rfl

/-- A greedy move is the adaptation of a search that has counted it, and a move. -/
theorem baseLevel_greedyMove (s : Search σ) (l : Literal) (gain : Int) :
    (s.greedyMove l gain).baseLevel = s.baseLevel :=
  baseLevel_adapt
    { s with counters := { s.counters with greedyMoves := s.counters.greedyMoves + 1 } } gain

theorem adaptations_greedyMove_le (s : Search σ) (l : Literal) (gain : Int) :
    (s.greedyMove l gain).counters.adaptations ≤ s.counters.adaptations + 1 :=
  adaptations_adapt_le
    { s with counters := { s.counters with greedyMoves := s.counters.greedyMoves + 1 } } gain

theorem greedyMoves_greedyMove (s : Search σ) (l : Literal) (gain : Int) :
    (s.greedyMove l gain).counters.greedyMoves = s.counters.greedyMoves + 1 :=
  greedyMoves_adapt
    { s with counters := { s.counters with greedyMoves := s.counters.greedyMoves + 1 } } gain

/-- A greedy move to which nothing adapts is counted and made. -/
theorem Still.greedyMove_eq (still : s.Still) (l : Literal) (gain : Int) :
    s.greedyMove l gain
      = ({ s with
          counters := { s.counters with greedyMoves := s.counters.greedyMoves + 1 } }).move l := by
  rw [greedyMove, Still.adapt_eq_self]
  exact still

/-! ## Steps -/

variable [InRangeSource σ]

theorem Sound.baseLevel_step (h : s.Sound P) : s.step.baseLevel = s.baseLevel := by
  have cases := h.step_cases
  generalize s.step = t at cases
  cases cases with
  | solved => rfl
  | random => rfl
  | @greedy c l position coin s₁ s₂ =>
    exact (s.redraw s₂).baseLevel_greedyMove l (s.gain l.proposition)

/-- A step adapts at most once, and only as a greedy move. -/
theorem Sound.adaptations_step (h : s.Sound P) :
    s.step.counters.adaptations + s.counters.greedyMoves
      ≤ s.counters.adaptations + s.step.counters.greedyMoves := by
  have cases := h.step_cases
  generalize s.step = t at cases
  cases cases with
  | solved => exact Nat.le_refl _
  | random => exact Nat.le_refl _
  | @greedy c l position coin s₁ s₂ =>
    have adapted : _ ≤ s.counters.adaptations + 1 :=
      (s.redraw s₂).adaptations_greedyMove_le l (s.gain l.proposition)
    have counted : _ = s.counters.greedyMoves + 1 :=
      (s.redraw s₂).greedyMoves_greedyMove l (s.gain l.proposition)
    omega

/-- A step to which nothing adapts keeps the level and its counters, of whichever
kind the step is. -/
theorem Sound.step_of_still (h : s.Sound P) (still : s.Still) :
    s.step.noise = s.noise ∧
      s.step.counters.noiseIncreases = s.counters.noiseIncreases ∧
      s.step.counters.noiseDecreases = s.counters.noiseDecreases := by
  have cases := h.step_cases
  generalize s.step = t at cases
  cases cases with
  | solved => exact ⟨rfl, rfl, rfl⟩
  | random => exact ⟨rfl, rfl, rfl⟩
  | @greedy c l position coin s₁ s₂ =>
    have same : (s.redraw s₂).Still := still
    rw [same.greedyMove_eq]
    exact ⟨rfl, rfl, rfl⟩

/-- In every state of every run there are no more adaptations than greedy moves. -/
theorem Reachable.adaptations_le (h : s.Reachable P) (hP : P.WellFormed) :
    s.counters.adaptations ≤ s.counters.greedyMoves := by
  refine h.induction hP (motive := fun s => s.counters.adaptations ≤ s.counters.greedyMoves)
    ?_ ?_ ?_ ?_
  · exact fun _ _ _ => Nat.le_refl 0
  · exact fun _ _ le => le
  · intro t ht le
    have adapted := ht.adaptations_step
    omega
  · exact fun _ _ le => le

/-! ## Runs -/

/-- Without a change of the level by hand, a run keeps the base of the level. -/
theorem Sound.baseLevel_performAll {actions : List Action} (h : s.Sound P)
    (valid : ∀ action ∈ actions, action.Valid P)
    (unset : ∀ percent, .setNoise percent ∉ actions) :
    (s.performAll actions).baseLevel = s.baseLevel := by
  refine h.performAll_induction (motive := fun t => t.baseLevel = s.baseLevel) valid ?_ ?_ ?_ rfl
  · exact fun _ _ _ same => same
  · exact fun _ ht same => ht.baseLevel_step.trans same
  · exact fun _ percent member => absurd member (unset percent)

/-- Without flips by hand, a search that has made no step has made no flip. -/
theorem Sound.lastFlip_performAll {actions : List Action} (h : s.Sound P)
    (fresh : s.state.lastFlip = none) (valid : ∀ action ∈ actions, action.Valid P)
    (unflipped : ∀ p, .flip p ∉ actions) :
    (s.performAll actions).counters.steps = 0 →
      (s.performAll actions).state.lastFlip = none := by
  refine h.performAll_induction
    (motive := fun t => t.counters.steps = 0 → t.state.lastFlip = none) valid ?_ ?_ ?_
    fun _ => fresh
  · exact fun _ p member => absurd member (unflipped p)
  · intro t ht kept unmoved
    cases solved : t.isSolved with
    | true =>
      rw [step_of_isSolved solved] at unmoved ⊢
      exact kept unmoved
    | false =>
      rw [(ht.counters_step solved).1] at unmoved
      omega
  · exact fun _ _ _ kept => kept

/-- The level after an action as far as it is set by hand. -/
def Action.levelSet (percent : Nat) : Action → Nat
  | .setNoise percent => percent
  | _ => percent

/-- A search whose level does not adapt and was set by hand to `level`. -/
structure Unadapted (P : Problem) (s : Search σ) (level : Nat) : Prop where
  sound : s.Sound P
  adaptive : s.adaptive = false
  noise : s.noise = Noise.clamp level
  increases : s.counters.noiseIncreases = 0
  decreases : s.counters.noiseDecreases = 0

theorem Unadapted.step {level : Nat} (h : s.Unadapted P level) : s.step.Unadapted P level := by
  obtain ⟨noise, increases, decreases⟩ := h.sound.step_of_still (.inl h.adaptive)
  exact ⟨h.sound.step, h.sound.adaptive_step.trans h.adaptive, noise.trans h.noise,
    increases.trans h.increases, decreases.trans h.decreases⟩

/-- With adaptation off the level is the one set last. -/
theorem Unadapted.performAll {level : Nat} (h : s.Unadapted P level) {actions : List Action}
    (valid : ∀ action ∈ actions, action.Valid P) :
    (s.performAll actions).Unadapted P (actions.foldl Action.levelSet level) := by
  refine List.foldl_rel (r := fun (t : Search σ) level => t.Unadapted P level) h ?_
  intro action member t level ht
  cases action with
  | flip p =>
    exact ⟨ht.sound.flip (valid _ member), ht.adaptive, ht.noise, ht.increases, ht.decreases⟩
  | step => exact ht.step
  | solve condition rounds =>
    exact solveWithin_induction (motive := fun t => t.Unadapted P level) (fun _ ht => ht.step)
      rounds condition ht
  | setNoise percent =>
    exact ⟨ht.sound.setNoise percent, ht.adaptive, rfl, ht.increases, ht.decreases⟩

/-- In every state of every run of a search started at some level: the level lies
between 0 and 100; steps are random and greedy moves; and there are no more
adaptations than greedy moves.  Until the level is set by hand it is the one at the
start, cut off at 100, plus the increases and less the decreases.  With adaptation off
there are no adaptations and the level is the one set last.  And a step before any
flip, by hand or by a step, keeps the level and the counters of adaptations. -/
theorem performAll_keeps_books (hP : P.Built) {settings : Settings}
    {initial : InitialAssignment} {source : σ} {start : Search σ} {actions : List Action}
    (started : start? P settings initial source = some start)
    (valid : ∀ action ∈ actions, action.Valid P) :
    let t := start.performAll actions
    t.noise.percent ≤ 100 ∧
    t.counters.steps = t.counters.randomMoves + t.counters.greedyMoves ∧
    t.counters.noiseIncreases + t.counters.noiseDecreases ≤ t.counters.greedyMoves ∧
    ((∀ percent, .setNoise percent ∉ actions) →
      (t.noise.percent : Int)
        = (min settings.noise 100 : Nat) + t.counters.noiseIncreases - t.counters.noiseDecreases) ∧
    (settings.adaptive = false →
      t.counters.noiseIncreases = 0 ∧ t.counters.noiseDecreases = 0 ∧
        t.noise.percent = min (actions.foldl Action.levelSet settings.noise) 100) ∧
    ((∀ p, .flip p ∉ actions) → t.counters.steps = 0 →
      t.step.noise = t.noise ∧
        t.step.counters.noiseIncreases = t.counters.noiseIncreases ∧
        t.step.counters.noiseDecreases = t.counters.noiseDecreases) := by
  intro t
  have reachable : t.Reachable P :=
    ⟨settings, initial, source, start, actions, started, valid, rfl⟩
  have sound : start.Sound P := sound_start hP.wellFormed started
  obtain ⟨a, source', -, begun⟩ := start?_eq_some started
  refine ⟨reachable.noise_le hP.wellFormed, reachable.steps_eq_moves hP.wellFormed,
    reachable.adaptations_le hP.wellFormed,
    ?_, ?_, ?_⟩
  · intro unset
    have base : t.baseLevel = start.baseLevel := sound.baseLevel_performAll valid unset
    have first : start.baseLevel = (min settings.noise 100 : Nat) := by
      rw [begun]
      simp [baseLevel, ofAssignment, Noise.clamp, Noise.maximum]
    rw [first] at base
    unfold baseLevel at base
    omega
  · intro off
    have unadapted : start.Unadapted P settings.noise := by
      subst begun
      exact ⟨sound, off, rfl, rfl, rfl⟩
    have run : t.Unadapted P _ := unadapted.performAll valid
    exact ⟨run.increases, run.decreases, congrArg Noise.percent run.noise⟩
  · intro unflipped unmoved
    have fresh : start.state.lastFlip = none := by
      rw [begun]
      rfl
    exact (reachable.sound hP.wellFormed).step_of_still
      (.inr (sound.lastFlip_performAll fresh valid unflipped unmoved))

/-- A search of the sample with greedy moves only. -/
def tailsSearch (adaptive : Bool) : Search Script :=
  ofAssignment sampleProblem ⟨30, adaptive⟩ ⟨#[true, true, false]⟩ ⟨[0, 99, 0, 99, 0, 99], [], []⟩

/-- Of three greedy moves the first one does not adapt, the second one raises the level
and the third one lowers it. -/
theorem performAll_keeps_books_sample :
    let t := (tailsSearch true).performAll [.step, .flip 0, .flip 2, .solve (Limit.steps 2) 3]
    let fixed := (tailsSearch false).performAll [.step, .setNoise 250, .flip 1, .step]
    (t.noise.percent : Int) = (min 30 100 : Nat) + t.counters.noiseIncreases
        - t.counters.noiseDecreases ∧
      t.counters = ⟨3, 0, 3, 1, 1⟩ ∧
      (tailsSearch true).step.noise = (tailsSearch true).noise ∧
      (tailsSearch true).step.counters = ⟨1, 0, 1, 0, 0⟩ ∧
      fixed.noise.percent = 100 ∧ fixed.counters.noiseIncreases = 0 := by
  intro t fixed
  have started : ∀ adaptive, start? sampleProblem ⟨30, adaptive⟩ (.given #[true, true, false])
      ⟨[0, 99, 0, 99, 0, 99], [], []⟩ = some (tailsSearch adaptive) := fun _ => rfl
  have adapting : ∀ action ∈ ([.step, .flip 0, .flip 2, .solve (Limit.steps 2) 3] : List Action),
      action.Valid sampleProblem := by decide
  have setting : ∀ action ∈ ([.step, .setNoise 250, .flip 1, .step] : List Action),
      action.Valid sampleProblem := by decide
  have none : ∀ action ∈ ([] : List Action), action.Valid sampleProblem := by decide
  have run := performAll_keeps_books sampleProblem_built (started true) adapting
  have first := performAll_keeps_books sampleProblem_built (started true) none
  have off := performAll_keeps_books sampleProblem_built (started false) setting
  refine ⟨run.2.2.2.1 (by simp), by decide, (first.2.2.2.2.2 (by simp) rfl).1, by decide, ?_, ?_⟩
  · exact (off.2.2.2.2.1 rfl).2.2
  · exact (off.2.2.2.2.1 rfl).1

end Search

end CardinalitySearch
