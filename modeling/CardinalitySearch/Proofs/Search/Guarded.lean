/-
CardinalitySearch.Proofs.Search.Guarded — no search stops at a fault.

A guarded run of a reachable search is the plain run, at every level: no entry
is missing, no number is drawn from an empty range, the constraint that a step
picks is violated and has a literal to flip, every count changes within its
bounds, every flip could be undone, and a recount after it finds what the state
says (`guarded_eq_plain`).  So what is checked on the way never shows.

The steps of the argument are those of the plain step (`Sound.step_cases`); the
draws found there are the draws of the guarded step.

The numbers are words, and problems with sizes that do not fit them are left out: there
a change can be impossible, and a guarded flip stops (`copies_flip_stops`).
-/
import CardinalitySearch.Search.Guarded
import CardinalitySearch.Proofs.Satisfaction.Check
import CardinalitySearch.Proofs.Satisfaction.Guarded
import CardinalitySearch.Proofs.Search.Copies
import CardinalitySearch.Proofs.Search.Soundness

namespace CardinalitySearch.Search

variable {σ : Type} {P : Problem} {s : Search σ}

/-! ## Flips and gains -/

namespace Sound

theorem gainGuarded_eq (h : s.Sound P) {p : Nat} (hp : p < P.propositionCount) (level : Level) :
    s.gainGuarded level p = .ok (s.gain p) := by
  unfold gainGuarded gain
  rw [h.problem, h.exact.gainGuarded_eq h.wellFormed hp]

/-- A flip passes the recount that follows it. -/
theorem flipGuarded_eq (h : s.Sound P) {p : Nat} (hp : p < P.propositionCount) (level : Level) :
    s.flipGuarded level p = .ok (s.flip p) := by
  have consistent := (h.exact.flip h.wellFormed hp).check_eq h.wellFormed
  unfold flipGuarded
  rw [h.problem, h.exact.flipGuarded_eq h.wellFormed hp]
  simp only [Fault.ok_bind, consistent, beq_self_eq_true, Level.demand_true, Fault.pure_eq_ok,
    flip_eq, h.problem]

theorem moveGuarded_eq (h : s.Sound P) {l : Literal} (hl : l.proposition < P.propositionCount)
    (level : Level) : s.moveGuarded level l = .ok (s.move l) := by
  unfold moveGuarded
  rw [h.flipGuarded_eq hl]
  rfl

/-- The constraint that a step picks is violated. -/
theorem isSatisfiedGuarded_eq (h : s.Sound P) {c : Constraint} (known : c ∈ P.constraints.toList)
    (violated : c.id ∈ s.state.violated.toList) :
    s.state.isSatisfiedGuarded P c.id = .ok false := by
  have tracked := h.exact.tracks c known
  rw [tracked.isSatisfiedGuarded_eq h.wellFormed known, tracked.violated.mp violated]

/-- The literal of a greedy move is found. -/
theorem greedyLiteralGuarded_eq (h : s.Sound P) {c : Constraint} (known : c ∈ P.constraints.toList)
    {l : Literal} (best : firstBest (fun l => s.gain l.proposition) c.literals = some l)
    (level : Level) : s.greedyLiteralGuarded level c = .ok (l, s.gain l.proposition) := by
  have plain := bestLiteral_eq (fun l => s.gain l.proposition) c.literals
  rw [best] at plain
  have gains : ∀ l ∈ c.literals,
      s.gainGuarded level l.proposition = .ok (s.gain l.proposition) :=
    fun l hl => h.gainGuarded_eq (h.proposition_lt known hl) level
  unfold greedyLiteralGuarded
  cases literals : c.literals with
  | nil => rw [literals] at plain; simp [bestLiteral] at plain
  | cons first rest =>
    rw [literals] at plain gains
    rw [List.forall_mem_cons] at gains
    have each : ∀ l ∈ rest, ∀ best : Literal × Int,
        (s.gainGuarded level l.proposition >>= fun gain =>
            (pure (if best.2 < gain then (l, gain) else best) : Except Fault _))
          = .ok (if best.2 < s.gain l.proposition then (l, s.gain l.proposition) else best) := by
      intro l hl best
      rw [gains.2 l hl]
      rfl
    simp only [gains.1, Fault.ok_bind, foldlM_eq_ok each]
    exact congrArg Except.ok (Option.some.inj plain)

end Sound

/-! ## Steps -/

section

variable [RandomSource σ]

theorem drawGuarded_eq {bound number : Nat} {source : σ} (positive : 0 < bound)
    (drawn : RandomSource.below bound s.source = (number, source)) :
    s.drawGuarded bound = .ok (number, s.redraw source) := by
  unfold drawGuarded
  simp only [positive, decide_true, Fault.require_true, Fault.ok_bind, drawn]
  rfl

end

variable [InRangeSource σ]

namespace Sound

/-- A step that draws a violated constraint goes on to move in it. -/
theorem stepGuarded_of_drawn (h : s.Sound P) (unsolved : s.isSolved = false) {c : Constraint}
    {position : Nat} {source : σ} (known : c ∈ P.constraints.toList)
    (drawn : RandomSource.below s.state.violatedCount s.source = (position, source))
    (picked : s.state.violated.toList[position]? = some c.id) (level : Level) :
    s.stepGuarded level = (s.redraw source).moveInGuarded level c := by
  have found : P.constraint? c.id = some c := h.wellFormed.constraint?_id known
  have violated := h.isSatisfiedGuarded_eq known (List.mem_of_getElem? picked)
  unfold stepGuarded
  rw [if_neg (by simp [unsolved]), drawGuarded_eq (violatedCount_pos unsolved) drawn]
  have problem : (s.redraw source).problem = P := h.problem
  simp only [Fault.ok_bind, state_redraw, SwapSet.get?_eq_getElem?_toList, picked,
    Fault.entry_some, problem, found, violated, Except.map, Bool.not_false, Level.demand_true]

/-- A guarded step is the plain one. -/
theorem stepGuarded_eq (h : s.Sound P) (level : Level) : s.stepGuarded level = .ok s.step := by
  have cases := h.step_cases
  generalize s.step = t at cases
  cases cases with
  | solved done => rw [stepGuarded, if_pos done]
  | @random c l position coin index s₁ s₂ s₃ unsolved known drawn picked tossed heads chosen
      literal =>
    have hl := h.proposition_lt known (List.mem_of_getElem? literal)
    have nonempty : 0 < c.literals.length :=
      List.length_pos_iff.mpr (h.wellFormed.admissible c known).literals_ne_nil
    let counted : Search σ :=
      { s.redraw s₃ with
        counters := { s.counters with randomMoves := s.counters.randomMoves + 1 } }
    have moved := Sound.moveGuarded_eq (s := counted) ⟨h.problem, h.wellFormed, h.exact⟩ hl level
    have coin : (s.redraw s₁).drawGuarded Noise.maximum = .ok (coin, s.redraw s₂) :=
      drawGuarded_eq (by decide) tossed
    rw [h.stepGuarded_of_drawn unsolved known drawn picked]
    unfold moveInGuarded
    simp only [coin, Fault.ok_bind, noise_redraw, heads, if_true]
    rw [drawGuarded_eq nonempty chosen]
    simp only [Fault.ok_bind, literal, Fault.entry_some]
    exact moved
  | @greedy c l position coin s₁ s₂ unsolved known drawn picked tossed tails best =>
    have hl := h.proposition_lt known (List.mem_of_find?_eq_some best)
    let counted : Search σ :=
      { s.redraw s₂ with
        counters := { s.counters with greedyMoves := s.counters.greedyMoves + 1 } }
    have sound : counted.Sound P := ⟨h.problem, h.wellFormed, h.exact⟩
    have chosen : counted.greedyLiteralGuarded level c = .ok (l, s.gain l.proposition) :=
      sound.greedyLiteralGuarded_eq known best level
    have coin : (s.redraw s₁).drawGuarded Noise.maximum = .ok (coin, s.redraw s₂) :=
      drawGuarded_eq (by decide) tossed
    rw [h.stepGuarded_of_drawn unsolved known drawn picked]
    unfold moveInGuarded
    simp only [coin, Fault.ok_bind, noise_redraw, tails, if_false]
    show (counted.greedyLiteralGuarded level c >>= fun best =>
      (counted.adapt best.2).moveGuarded level best.1) = _
    rw [chosen]
    exact (sound.adapt _).moveGuarded_eq hl level

theorem roundGuarded_eq {τ : Type} [StopCondition τ] (h : s.Sound P) (level : Level)
    (condition : τ) : s.roundGuarded level condition = .ok (s.round condition) := by
  unfold roundGuarded round
  split
  · rfl
  · dsimp only
    split
    · rfl
    · rw [h.stepGuarded_eq level]
      rfl

end Sound

/-- A guarded call of solve is the plain one. -/
theorem Sound.solveWithinGuarded_eq {τ : Type} [StopCondition τ] (level : Level) (rounds : Nat) :
    ∀ {s : Search σ} (condition : τ), s.Sound P →
      s.solveWithinGuarded level rounds condition = .ok (s.solveWithin rounds condition) := by
  induction rounds with
  | zero => exact fun _ _ => rfl
  | succ rounds ih =>
    intro s condition h
    unfold solveWithinGuarded solveWithin
    have next : (s.round condition).search.Sound P :=
      round_induction (motive := fun s => s.Sound P) (fun _ h => h.step) condition h
    rw [h.roundGuarded_eq level condition, Fault.ok_bind]
    dsimp only
    cases (s.round condition).verdict with
    | unfinished => exact ih _ next
    | satisfiable solution => rfl
    | unknown => rfl

/-! ## Runs -/

/-- Every problem can be searched from every assignment of its propositions. -/
theorem exists_startGuarded_eq_ok (hP : P.WellFormed) (settings : Settings)
    {initial : InitialAssignment} (source : σ)
    (fits : ∀ values, initial = .given values → values.size = P.propositionCount) :
    ∃ start, start? P settings initial source = some start ∧
      startGuarded P settings initial source = .ok start := by
  obtain ⟨start, started⟩ := exists_start?_eq_some P settings source fits
  refine ⟨start, started, ?_⟩
  unfold start? at started
  obtain ⟨⟨a, source'⟩, drawn, rfl⟩ := Option.map_eq_some_iff.mp started
  unfold startGuarded
  rw [drawn, Fault.entry_some, Fault.ok_bind]
  dsimp only
  rw [Satisfaction.ofAssignmentGuarded_eq hP (InitialAssignment.size_assignment? drawn)]
  rfl

/-- `perform` with guarded flips and steps. -/
def performGuarded (level : Level) (s : Search σ) : Action → Except Fault (Search σ)
  | .flip p => s.flipGuarded level p
  | .step => s.stepGuarded level
  | @Action.solve _ _ condition rounds =>
    (s.solveWithinGuarded level rounds condition).map (·.search)
  | .setNoise percent => .ok (s.setNoise percent)

/-- `performAll` with guarded flips and steps. -/
def performAllGuarded (level : Level) (s : Search σ) (actions : List Action) :
    Except Fault (Search σ) :=
  actions.foldlM (performGuarded level) s

theorem Sound.performGuarded_eq (h : s.Sound P) (level : Level) {action : Action}
    (valid : action.Valid P) : s.performGuarded level action = .ok (s.perform action) := by
  cases action with
  | flip p => exact h.flipGuarded_eq valid level
  | step => exact h.stepGuarded_eq level
  | solve condition rounds =>
    have solved := Sound.solveWithinGuarded_eq level rounds condition h
    exact congrArg (Except.map (·.search)) solved
  | setNoise percent => rfl

/-- No action of a run stops it. -/
theorem Reachable.performAllGuarded_eq (hP : P.WellFormed) (level : Level) (actions : List Action) :
    ∀ {s : Search σ}, s.Reachable P → (∀ action ∈ actions, action.Valid P) →
      s.performAllGuarded level actions = .ok (s.performAll actions) := by
  induction actions with
  | nil => exact fun _ _ => rfl
  | cons action rest ih =>
    intro s hs valid
    rw [List.forall_mem_cons] at valid
    unfold performAllGuarded
    rw [List.foldlM_cons, (hs.sound hP).performGuarded_eq level valid.1]
    exact ih (hs.perform action valid.1) valid.2

/-- A search can be started at every assignment of the right length.  From there on
a guarded run is the plain one, whatever the level: it never stops at a fault, and
what is checked on the way never shows.  The same holds of each flip, step and call
of solve with its answer, and of the questions that can be asked about the
propositions and constraints of the problem.  The search counts in words, which have
to fit the sizes of the problem. -/
theorem guarded_eq_plain (hP : P.Built .words) (small : P.FitsWords) (hs : s.Reachable P)
    (level : Level) :
    (∀ (settings : Settings) (initial : InitialAssignment) (source : σ),
      (∀ values, initial = .given values → values.size = P.propositionCount) →
      ∃ start, start? P settings initial source = some start ∧
        startGuarded P settings initial source = .ok start) ∧
    (∀ actions : List Action, (∀ action ∈ actions, action.Valid P) →
      s.performAllGuarded level actions = .ok (s.performAll actions)) ∧
    s.stepGuarded level = .ok s.step ∧
    (∀ {τ : Type} [StopCondition τ] (condition : τ) (rounds : Nat),
      s.solveWithinGuarded level rounds condition = .ok (s.solveWithin rounds condition)) ∧
    (∀ p < P.propositionCount,
      s.flipGuarded level p = .ok (s.flip p) ∧ s.gainGuarded level p = .ok (s.gain p) ∧
      s.state.assignment.value? p = some (s.state.assignment.value p)) ∧
    (∀ i < P.constraintCount,
      s.state.isSatisfiedGuarded P i = .ok (s.state.isSatisfied P i) ∧
      s.state.count? i = some (s.state.count i)) ∧
    s.state.check P = .consistent := by
  have wellFormed := hP.wellFormed_words small
  have sound := hs.sound wellFormed
  refine ⟨fun settings _ source fits =>
      exists_startGuarded_eq_ok sound.wellFormed settings source fits,
    fun actions => hs.performAllGuarded_eq wellFormed level actions, sound.stepGuarded_eq level,
    fun condition rounds => Sound.solveWithinGuarded_eq level rounds condition sound, ?_, ?_,
    sound.exact.check_eq sound.wellFormed⟩
  · intro p hp
    exact ⟨sound.flipGuarded_eq hp level, sound.gainGuarded_eq hp level, sound.exact.value?_eq hp⟩
  · intro i hi
    obtain ⟨c, hc, rfl⟩ := sound.wellFormed.exists_constraint hi
    have tracked := sound.exact.tracks c hc
    refine ⟨?_, ?_⟩
    · rw [tracked.isSatisfiedGuarded_eq sound.wellFormed hc, Satisfaction.isSatisfied,
        tracked.count_eq, sound.wellFormed.accepts_id hc]
      rfl
    · rw [tracked.count, tracked.count_eq]

theorem guarded_eq_plain_sample :
    (∃ start : Search Script, startGuarded (sampleProblem .words) {}
        (.given #[false, true, true]) ⟨[], [], []⟩ = .ok start) ∧
      (sampleSearch .words).performAllGuarded .extreme sampleActions
        = .ok ((sampleSearch .words).performAll sampleActions) ∧
      (sampleSearch .words).performAllGuarded .simple sampleActions
        = .ok ((sampleSearch .words).performAll sampleActions) := by
  have valid : ∀ action ∈ sampleActions, action.Valid (sampleProblem .words) := by decide
  have fits : ∀ values, InitialAssignment.given #[false, true, true] = .given values →
      values.size = (sampleProblem .words).propositionCount := by
    rintro values ⟨⟩
    decide
  have plain := guarded_eq_plain sampleProblem_built sampleProblem_fitsWords
    sampleSearch_reachable
  obtain ⟨start, -, guarded⟩ :=
    (plain .extreme).1 {} (.given #[false, true, true]) ⟨[], [], []⟩ fits
  exact ⟨⟨start, guarded⟩, (plain .extreme).2.1 sampleActions valid,
    (plain .simple).2.1 sampleActions valid⟩

/-- From the moderate level on a change that the number of copies does not allow is
found before it is made. -/
theorem flipGuarded_copies {C : Copies} {value : Bool} {count : Nat} {lastFlip : Option Flip}
    (kept : C.keptWeight ≠ 0) {change : Int}
    (computed : WeightedOccurrence.change ⟨0, C.keptWeight⟩ (!value) .words = change)
    (impossible : C.constraint.allows count change = false) {level : Level}
    (strict : Level.moderate.rank ≤ level.rank) :
    (C.state value count lastFlip).flipGuarded level C.problem 0
      = .error (.impossibleChange count change) := by
  have stops : ({ C.state value count lastFlip with assignment := ⟨#[!value]⟩ } :
      Satisfaction).changeGuarded level C.problem (!value) ⟨0, C.keptWeight⟩
        = .error (.impossibleChange count change) := by
    have counted : ({ C.state value count lastFlip with assignment := ⟨#[!value]⟩ } :
        Satisfaction).count? 0 = some count := rfl
    unfold Satisfaction.changeGuarded
    rw [C.constraint?_problem, counted]
    simp only [Fault.entry_some, Fault.ok_bind, C.arithmetic_problem, computed, impossible,
      Level.demand_false strict]
    rfl
  have toggled : ({ C.state value count lastFlip with
      assignment := (C.state value count lastFlip).assignment.toggle 0 } : Satisfaction)
        = { C.state value count lastFlip with assignment := ⟨#[!value]⟩ } := rfl
  have known : (C.state value count lastFlip).assignment.value? 0 = some value := rfl
  unfold Satisfaction.flipGuarded
  rw [C.getElem?_occurrences, known]
  simp only [Fault.entry_some, Fault.ok_bind]
  rw [C.weighted_problem, Occurrences.entry_of_ne_zero 0 kept, List.foldlM_cons, toggled,
    Satisfaction.visitGuarded, stops]
  rfl

/-- With 2147483648 copies in a clause a guarded flip stops in words: the negative number
that is kept as the weight cannot be added to a count of zero. -/
theorem copies_flip_stops :
    let C := Copies.least 1 2147483648
    let s := C.start false 0 (⟨[], [], []⟩ : Script)
    s.Reachable C.problem ∧ 0 < C.problem.propositionCount ∧
      s.flipGuarded .moderate 0 = .error (.impossibleChange 0 (-2147483648)) := by
  intro C s
  have here : C.InState s false _ none := Copies.inState_start false 0 _
  have kept : C.keptWeight = -2147483648 := Copies.keptWeight_least _
  refine ⟨Copies.reachable_start false 0 _, by rw [C.propositionCount_problem]; decide, ?_⟩
  have stops : (C.state false 0 none).flipGuarded .moderate C.problem 0
      = .error (.impossibleChange 0 (-2147483648)) :=
    flipGuarded_copies (Copies.keptWeight_least_ne_zero _) (by rw [kept]; decide) (by decide)
      (Nat.le_refl _)
  have counted : C.counted false = 0 := by decide
  rw [flipGuarded, here.problem, here.state, counted, stops]
  rfl

/-- A search with stale counts, which no run reaches. -/
def staleSearch : Search Script :=
  { sampleSearch with state := { sampleSearch.state with counts := #[2, 5, 0] } }

example : (staleSearch.flipGuarded .simple 2).isOk = true := by decide

example : (staleSearch.flipGuarded .moderate 2).isOk = false := by decide

end CardinalitySearch.Search
