/-
CardinalitySearch.Proofs.Search.Copies — searches among copies of one literal.

With one proposition and one constraint a state is a value, a count and the latest flip
(`Copies.state`), and a flip computes the next one from what is kept of the weight
(`flip_state`).  Every step of an unsolved search is that flip, whatever is drawn
(`InState.step`).  Nothing here depends on whether the weight is kept as it is; what goes
wrong when it is not can be read off.
-/
import CardinalitySearch.Proofs.Problem.Copies
import CardinalitySearch.Proofs.Search.Reachable

namespace CardinalitySearch.Copies

variable (C : Copies)

/-! ## States -/

/-- The state with a value, a number of true copies and a latest flip. -/
def state (value : Bool) (count : Nat) (lastFlip : Option Flip) : Satisfaction where
  assignment := ⟨#[value]⟩
  counts := #[count]
  violated := if C.constraint.accepts count then ⟨#[], #[none]⟩ else ⟨#[0], #[some 0]⟩
  lastFlip := lastFlip

/-- The number of true copies that is kept at the start. -/
def counted (value : Bool) : Nat :=
  Word.unsigned (if value = C.positive then C.number else 0)

/-- The number of true copies that is kept once the proposition has got `value`. -/
def countAfter (value : Bool) (count : Nat) : Nat :=
  Word.saturatingAdd count (WeightedOccurrence.change ⟨0, C.keptWeight⟩ value .words)

/-- What the constraint contributes to the gain of giving the proposition `value`. -/
def gain (value : Bool) (count : Nat) : Int :=
  Satisfaction.indicator (C.constraint.accepts (C.countAfter value count))
    - Satisfaction.indicator (C.constraint.accepts count)

theorem count?_state (value : Bool) (count : Nat) (lastFlip : Option Flip) :
    (C.state value count lastFlip).count? 0 = some count := rfl

theorem ofAssignment_problem (value : Bool) :
    Satisfaction.ofAssignment C.problem ⟨#[value]⟩ = C.state value (C.counted value) none := by
  have counted : C.problem.counted ⟨#[value]⟩ C.constraint = C.counted value := by
    rw [Problem.counted, countTrue_literals]
    rfl
  unfold Satisfaction.ofAssignment state
  rw [toList_constraints, List.map_singleton, List.filter_cons, List.filter_nil, counted,
    constraintCount_problem]
  cases C.constraint.accepts (C.counted value) <;> rfl

theorem violatedCount_state (value : Bool) (count : Nat) (lastFlip : Option Flip) :
    ((C.state value count lastFlip).violatedCount : Int)
      = 1 - Satisfaction.indicator (C.constraint.accepts count) := by
  unfold state
  cases C.constraint.accepts count <;> rfl

theorem isSolved_state (value : Bool) (count : Nat) (lastFlip : Option Flip) :
    (C.state value count lastFlip).isSolved = C.constraint.accepts count := by
  unfold state
  cases C.constraint.accepts count <;> rfl

variable {C}

section

variable (kept : C.keptWeight ≠ 0) (value : Bool) (count : Nat) (lastFlip : Option Flip)

include kept

/-- A flip visits the constraint and records by how much that helps. -/
theorem flip_state :
    (C.state value count lastFlip).flip C.problem 0
      = C.state (!value) (C.countAfter (!value) count)
          (some ⟨⟨0, !value⟩, C.gain (!value) count⟩) := by
  have difference : Word.sub (C.state value count lastFlip).violatedCount
      (C.state (!value) (C.countAfter (!value) count) none).violatedCount
        = C.gain (!value) count := by
    rw [violatedCount_state, violatedCount_state, gain]
    cases C.constraint.accepts count <;>
      cases C.constraint.accepts (C.countAfter (!value) count) <;> decide
  have visited : Satisfaction.visit C.problem (!value)
      { C.state value count lastFlip with assignment := ⟨#[!value]⟩ } ⟨0, C.keptWeight⟩
        = { C.state (!value) (C.countAfter (!value) count) lastFlip with } := by
    have after : Satisfaction.countAfter
        { C.state value count lastFlip with assignment := ⟨#[!value]⟩ } C.problem (!value)
          ⟨0, C.keptWeight⟩ = C.countAfter (!value) count := rfl
    rw [Satisfaction.visit_eq, after]
    dsimp only
    rw [accepts_problem]
    unfold state
    cases C.constraint.accepts count <;>
      cases C.constraint.accepts (C.countAfter (!value) count) <;> rfl
  rw [Satisfaction.flip_eq, weighted_problem, Occurrences.entry_of_ne_zero 0 kept]
  show Satisfaction.record .words ⟨0, !value⟩ _ (Satisfaction.visit C.problem (!value)
    { C.state value count lastFlip with assignment := ⟨#[!value]⟩ } ⟨0, C.keptWeight⟩) = _
  rw [visited, ← difference]
  rfl

theorem gain_state :
    (C.state value count lastFlip).gain C.problem 0 = C.gain (!value) count := by
  have at_entry : (C.state value count lastFlip).gainAt C.problem (!value) ⟨0, C.keptWeight⟩
      = C.gain (!value) count := by
    rw [Satisfaction.gainAt_eq, Satisfaction.isSatisfied, accepts_problem, accepts_problem]
    rfl
  have one : ∀ b c : Bool, Word.add 0 (Satisfaction.indicator b - Satisfaction.indicator c)
      = Satisfaction.indicator b - Satisfaction.indicator c := by decide
  rw [Satisfaction.gain, weighted_problem, Occurrences.entry_of_ne_zero 0 kept]
  show Word.add 0 ((C.state value count lastFlip).gainAt C.problem (!value) _) = _
  rw [at_entry]
  exact one _ _

end

/-! ## Searches -/

variable {σ : Type} {s : Search σ} {value : Bool} {count : Nat} {lastFlip : Option Flip}

variable (C) in
/-- A search that starts at a value, with a noise level. -/
def start (value : Bool) (noise : Nat) (source : σ) : Search σ :=
  .ofAssignment C.problem ⟨noise, false⟩ ⟨#[value]⟩ source

variable (C) in
/-- The search is one of the problem and in such a state. -/
structure InState (s : Search σ) (value : Bool) (count : Nat) (lastFlip : Option Flip) :
    Prop where
  problem : s.problem = C.problem
  state : s.state = C.state value count lastFlip

theorem inState_start (value : Bool) (noise : Nat) (source : σ) :
    C.InState (C.start value noise source) value (C.counted value) none :=
  ⟨rfl, C.ofAssignment_problem value⟩

theorem reachable_start [RandomSource σ] (value : Bool) (noise : Nat) (source : σ) :
    (C.start value noise source).Reachable C.problem :=
  ⟨⟨noise, false⟩, .given #[value], source, _, [],
    Search.start?_given C.problem _ source C.propositionCount_problem.symm, by simp, rfl⟩

theorem reachable_flip [RandomSource σ] (h : s.Reachable C.problem) :
    (s.flip 0).Reachable C.problem :=
  h.perform (.flip 0) (by rw [Search.Action.Valid, propositionCount_problem]; decide)

/-- A move among the copies is a flip, whatever is drawn. -/
theorem moveIn_cases [InRangeSource σ] (s : Search σ) :
    ∃ source, s.moveIn C.constraint = (s.redraw source).randomMove C.literal ∨
      ∃ gain, s.moveIn C.constraint = (s.redraw source).greedyMove C.literal gain := by
  have kind : ∃ heads source, s.drawKind = (heads, s.redraw source) := ⟨_, _, rfl⟩
  obtain ⟨heads, source, tossed⟩ := kind
  rw [Search.moveIn, tossed]
  cases heads with
  | true =>
    obtain ⟨index, source', chosen⟩ : ∃ index source',
        RandomSource.below C.constraint.literals.length source = (index, source') := ⟨_, _, rfl⟩
    have inside := InRangeSource.below_lt C.number source C.number_pos
    rw [← C.length_literals, chosen, C.length_literals] at inside
    simp only [s.drawLiteral_redraw _ chosen, C.getElem?_literals inside]
    exact ⟨source', .inl rfl⟩
  | false =>
    have nonempty : C.constraint.literals ≠ [] :=
      List.ne_nil_of_length_pos (C.length_literals.symm ▸ C.number_pos)
    obtain ⟨l, best⟩ := firstBest_isSome (fun l => (s.redraw source).gain l.proposition) nonempty
    have only := C.eq_literal_of_mem (List.mem_of_find?_eq_some best)
    simp only [Search.greedyLiteral_eq, best, only, Option.map_some]
    exact ⟨source, .inr ⟨_, rfl⟩⟩

namespace InState

theorem isSolved (h : C.InState s value count lastFlip) :
    s.isSolved = C.constraint.accepts count := by
  rw [Search.isSolved, h.state, isSolved_state]

theorem flip (h : C.InState s value count lastFlip) (kept : C.keptWeight ≠ 0) :
    C.InState (s.flip 0) (!value) (C.countAfter (!value) count)
      (some ⟨⟨0, !value⟩, C.gain (!value) count⟩) where
  problem := h.problem
  state := by rw [Search.state_flip, h.problem, h.state, flip_state kept]

theorem gain (h : C.InState s value count lastFlip) (kept : C.keptWeight ≠ 0) :
    s.gain 0 = C.gain (!value) count := by
  rw [Search.gain, h.problem, h.state, gain_state kept]

/-- A step of an unsolved search is a flip, whatever is drawn. -/
theorem step [InRangeSource σ] (h : C.InState s value count lastFlip) (kept : C.keptWeight ≠ 0)
    (unsolved : C.constraint.accepts count = false) :
    C.InState s.step (!value) (C.countAfter (!value) count)
      (some ⟨⟨0, !value⟩, C.gain (!value) count⟩) := by
  have one : s.state.violated = ⟨#[0], #[some 0]⟩ := by
    rw [h.state, Copies.state, unsolved]
    rfl
  -- there is one violated constraint, so every draw of one is of this
  have position : (RandomSource.below s.state.violatedCount s.source).1 = 0 := by
    have size : s.state.violatedCount = 1 := congrArg SwapSet.size one
    rw [size]
    exact Nat.lt_one_iff.mp (InRangeSource.below_lt 1 s.source Nat.one_pos)
  have drawn : ∃ source, s.drawConstraint = (some C.constraint, s.redraw source) := by
    refine ⟨(RandomSource.below s.state.violatedCount s.source).2, ?_⟩
    unfold Search.drawConstraint
    dsimp only
    rw [position, one]
    exact Prod.ext (h.problem ▸ C.constraint?_problem) rfl
  obtain ⟨source, drawn⟩ := drawn
  rw [Search.step, h.isSolved, unsolved, if_neg Bool.false_ne_true, drawn]
  have flipped := h.flip kept
  show C.InState ((s.redraw source).moveIn C.constraint) _ _ _
  obtain ⟨source', random | ⟨gain, greedy⟩⟩ := moveIn_cases (C := C) (s.redraw source)
  · rw [random]
    exact ⟨flipped.problem, flipped.state⟩
  · rw [greedy]
    exact ⟨(Search.problem_greedyMove _ _ _).trans flipped.problem,
      (Search.state_greedyMove _ _ _).trans flipped.state⟩

end InState

end CardinalitySearch.Copies
