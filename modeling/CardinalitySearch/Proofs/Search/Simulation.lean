/-
CardinalitySearch.Proofs.Search.Simulation — a search that runs as another one does.

A simulation takes the states of one problem to states of another.  It is asked for
what a single flip needs: a flip can be made before taking the image or after it, and
a gain is the same on both sides.  Everything else a search does follows, and each
operation has one lemma here; the one about runs (`performAll_search`) is put together
from these.

Nothing is asked of the draws, so the lemmas hold for every source.  Draws are compared
through the source: both searches have the same one at every point, also when it keeps
a record of what it has been asked and has answered.
-/
import CardinalitySearch.Proofs.Search.Reachable

namespace CardinalitySearch

/-- A way to take states of the problem `P` to states of the problem `Q`. -/
structure Simulation (P Q : Problem) where
  /-- The image of an assignment. -/
  assignment : Assignment → Assignment
  /-- The image of a literal. -/
  literal : Literal → Literal
  /-- The image of a state. -/
  state : Satisfaction → Satisfaction
  /-- The states whose images behave as they do. -/
  Covers : Satisfaction → Prop
  wellFormed : P.WellFormed
  proposition_literal : ∀ l, (literal l).proposition = l.proposition
  constraint? : ∀ i, Q.constraint? i
    = (P.constraint? i).map fun c => { c with literals := c.literals.map literal }
  assignment_state : ∀ s, (state s).assignment = assignment s.assignment
  violated_state : ∀ s, (state s).violated = s.violated
  improvement_state : ∀ s,
    (state s).lastFlip.map (·.improvement) = s.lastFlip.map (·.improvement)
  covers_flip : ∀ {s p}, Covers s → p < P.propositionCount → Covers (s.flip P p)
  flip_state : ∀ {s p}, Covers s → p < P.propositionCount →
    (state s).flip Q p = state (s.flip P p)
  gain_state : ∀ {s p}, Covers s → p < P.propositionCount → (state s).gain Q p = s.gain P p

/-- The verdict with the image of the solution. -/
def Verdict.map (image : Assignment → Assignment) : Verdict → Verdict
  | .satisfiable solution => .satisfiable (image solution)
  | .unknown => .unknown
  | .unfinished => .unfinished

/-- The best literal of the images is the image of the best literal. -/
theorem bestLiteral_map {image : Literal → Literal} {gain gain' : Literal → Int}
    {ls : List Literal} (same : ∀ l ∈ ls, gain' (image l) = gain l) :
    bestLiteral gain' (ls.map image)
      = (bestLiteral gain ls).map fun best => (image best.1, best.2) := by
  have first : firstBest gain' (ls.map image) = (firstBest gain ls).map image := by
    rw [← firstBest_congr same]
    unfold firstBest
    rw [List.find?_map]
    simp only [Function.comp_def, List.all_map]
  rw [bestLiteral_eq, bestLiteral_eq, first, Option.map_map, Option.map_map]
  cases best : firstBest gain ls with
  | none => rfl
  | some l =>
    have member : l ∈ ls := List.mem_of_find?_eq_some best
    simp [same l member]

/-- The best literal is one of the list. -/
theorem fst_mem_of_bestLiteral {gain : Literal → Int} {ls : List Literal} {best : Literal × Int}
    (h : bestLiteral gain ls = some best) : best.1 ∈ ls := by
  rw [bestLiteral_eq, Option.map_eq_some_iff] at h
  obtain ⟨l, first, rfl⟩ := h
  exact List.mem_of_find?_eq_some first

namespace Simulation

variable {P Q : Problem} (m : Simulation P Q) {σ : Type} {s : Search σ}

/-- The image of a constraint. -/
def constraint (c : Constraint) : Constraint :=
  { c with literals := c.literals.map m.literal }

/-- The image of a search. -/
def search (s : Search σ) : Search σ :=
  { s with problem := Q, state := m.state s.state }

/-- The run with the images of its verdict and of its search. -/
def run {τ : Type} (r : Run σ τ) : Run σ τ :=
  ⟨r.verdict.map m.assignment, m.search r.search, r.condition⟩

/-- The searches whose images run as they do. -/
structure Applies (s : Search σ) : Prop where
  problem : s.problem = P
  covers : m.Covers s.state

variable {m}

namespace Applies

theorem flip (h : m.Applies s) {p : Nat} (hp : p < P.propositionCount) :
    m.Applies (s.flip p) where
  problem := h.problem
  covers := by
    rw [Search.state_flip, h.problem]
    exact m.covers_flip h.covers hp

/-- What neither the problem nor the state has a part in may change. -/
theorem congr (h : m.Applies s) {t : Search σ} (problem : t.problem = s.problem)
    (state : t.state = s.state) : m.Applies t :=
  ⟨problem.trans h.problem, state ▸ h.covers⟩

theorem adapt (h : m.Applies s) (gain : Int) : m.Applies (s.adapt gain) :=
  h.congr (s.problem_adapt gain) (s.state_adapt gain)

theorem randomMove (h : m.Applies s) {l : Literal} (hl : l.proposition < P.propositionCount) :
    m.Applies (s.randomMove l) :=
  (h.flip hl).congr rfl rfl

theorem greedyMove (h : m.Applies s) {l : Literal} (hl : l.proposition < P.propositionCount)
    (gain : Int) : m.Applies (s.greedyMove l gain) :=
  (h.flip hl).congr (s.problem_greedyMove l gain) (s.state_greedyMove l gain)

end Applies

/-! ## Moves -/

theorem isSolved_search (s : Search σ) : (m.search s).isSolved = s.isSolved :=
  congrArg SwapSet.isEmpty (m.violated_state s.state)

theorem flip_search (h : m.Applies s) {p : Nat} (hp : p < P.propositionCount) :
    (m.search s).flip p = m.search (s.flip p) := by
  obtain ⟨rfl, covers⟩ := h
  exact congrArg (fun state => { s with problem := Q, state }) (m.flip_state covers hp)

theorem gain_search (h : m.Applies s) {p : Nat} (hp : p < P.propositionCount) :
    (m.search s).gain p = s.gain p := by
  obtain ⟨rfl, covers⟩ := h
  exact m.gain_state covers hp

theorem move_search (h : m.Applies s) {l : Literal} (hl : l.proposition < P.propositionCount) :
    (m.search s).move (m.literal l) = m.search (s.move l) := by
  rw [Search.move, Search.move, m.proposition_literal, flip_search h hl]
  rfl

theorem randomMove_search (h : m.Applies s) {l : Literal}
    (hl : l.proposition < P.propositionCount) :
    (m.search s).randomMove (m.literal l) = m.search (s.randomMove l) := by
  have counted : m.Applies { s with
      counters := { s.counters with randomMoves := s.counters.randomMoves + 1 } } :=
    h.congr rfl rfl
  exact move_search counted hl

/-- An adaptation looks at the improvement of the latest flip only. -/
theorem adapt_search (s : Search σ) (gain : Int) :
    (m.search s).adapt gain = m.search (s.adapt gain) := by
  have improvement := m.improvement_state s.state
  obtain ⟨problem, state, noise, adaptive, source, counters⟩ := s
  unfold Search.adapt search
  dsimp only at improvement ⊢
  cases adaptive with
  | false => rfl
  | true =>
    cases last : state.lastFlip with
    | none =>
      rw [last, Option.map_none, Option.map_eq_none_iff] at improvement
      rw [improvement]
    | some flip =>
      rw [last, Option.map_some, Option.map_eq_some_iff] at improvement
      obtain ⟨image, found, same⟩ := improvement
      simp only [found, same]

theorem greedyMove_search (h : m.Applies s) {l : Literal}
    (hl : l.proposition < P.propositionCount) (gain : Int) :
    (m.search s).greedyMove (m.literal l) gain = m.search (s.greedyMove l gain) := by
  have counted : m.Applies { s with
      counters := { s.counters with greedyMoves := s.counters.greedyMoves + 1 } } :=
    h.congr rfl rfl
  rw [Search.greedyMove, Search.greedyMove, ← move_search (counted.adapt gain) hl, ← adapt_search]
  rfl

theorem greedyLiteral_search (h : m.Applies s) {c : Constraint}
    (inside : ∀ l ∈ c.literals, l.proposition < P.propositionCount) :
    (m.search s).greedyLiteral (m.constraint c)
      = (s.greedyLiteral c).map fun best => (m.literal best.1, best.2) :=
  bestLiteral_map fun l hl => by
    rw [m.proposition_literal]
    exact gain_search h (inside l hl)

/-! ## Steps -/

variable [RandomSource σ]

theorem drawConstraint_search (h : m.Applies s) :
    (m.search s).drawConstraint
      = (s.drawConstraint.1.map m.constraint, m.search s.drawConstraint.2) := by
  obtain ⟨rfl, -⟩ := h
  have found : Q.constraint? = fun i => (s.problem.constraint? i).map m.constraint :=
    funext m.constraint?
  unfold Search.drawConstraint search Satisfaction.violatedCount
  dsimp only
  rw [found, m.violated_state, Option.map_bind]
  rfl

theorem drawLiteral_search (s : Search σ) (c : Constraint) :
    (m.search s).drawLiteral (m.constraint c)
      = ((s.drawLiteral c).1.map m.literal, m.search (s.drawLiteral c).2) := by
  have length : (m.constraint c).literals.length = c.literals.length := List.length_map _
  unfold Search.drawLiteral
  rw [length]
  refine Prod.ext ?_ rfl
  exact List.getElem?_map

/-- The literals of a drawn constraint can be flipped. -/
theorem Applies.proposition_lt (h : m.Applies s) {c : Constraint}
    (drawn : s.drawConstraint.1 = some c) :
    ∀ l ∈ c.literals, l.proposition < P.propositionCount := by
  simp only [Search.drawConstraint, h.problem, Option.bind_eq_some_iff] at drawn
  obtain ⟨i, -, known⟩ := drawn
  have member := (m.wellFormed.constraint?_eq_some_iff.mp known).1
  exact (m.wellFormed.admissible c member).proposition_lt

theorem moveIn_search (h : m.Applies s) {c : Constraint}
    (inside : ∀ l ∈ c.literals, l.proposition < P.propositionCount) :
    (m.search s).moveIn (m.constraint c) = m.search (s.moveIn c) ∧ m.Applies (s.moveIn c) := by
  have kind : (m.search s).drawKind = (s.drawKind.1, m.search s.drawKind.2) := rfl
  have tossed : m.Applies s.drawKind.2 := h.congr rfl rfl
  unfold Search.moveIn
  rw [kind]
  generalize s.drawKind = toss at tossed ⊢
  obtain ⟨_ | _, t⟩ := toss
  · dsimp only at tossed ⊢
    rw [greedyLiteral_search tossed inside]
    cases best : t.greedyLiteral c with
    | none => exact ⟨rfl, tossed⟩
    | some choice =>
      have known := inside _ (fst_mem_of_bestLiteral best)
      exact ⟨greedyMove_search tossed known choice.2, tossed.greedyMove known choice.2⟩
  · dsimp only at tossed ⊢
    rw [drawLiteral_search]
    have drawn : m.Applies (t.drawLiteral c).2 := tossed.congr rfl rfl
    have member : ∀ l, (t.drawLiteral c).1 = some l → l ∈ c.literals := fun l picked =>
      List.mem_of_getElem? picked
    generalize t.drawLiteral c = draw at drawn member ⊢
    obtain ⟨_ | l, u⟩ := draw
    · exact ⟨rfl, drawn⟩
    · have known := inside l (member l rfl)
      exact ⟨randomMove_search drawn known, drawn.randomMove known⟩

/-- A step of the image is the image of the step. -/
theorem step_search (h : m.Applies s) :
    (m.search s).step = m.search s.step ∧ m.Applies s.step := by
  unfold Search.step
  rw [isSolved_search, drawConstraint_search h]
  split
  · exact ⟨rfl, h⟩
  · have drawn : m.Applies s.drawConstraint.2 := h.congr rfl rfl
    have inside : ∀ c, s.drawConstraint.1 = some c →
        ∀ l ∈ c.literals, l.proposition < P.propositionCount := fun c => h.proposition_lt
    generalize s.drawConstraint = draw at drawn inside ⊢
    obtain ⟨_ | c, t⟩ := draw
    · exact ⟨rfl, drawn⟩
    · exact moveIn_search drawn (inside c rfl)

theorem Applies.step (h : m.Applies s) : m.Applies s.step :=
  (step_search h).2

/-- Steps of the image answer as the steps do. -/
theorem stepMany_search (n : Nat) : ∀ {s : Search σ}, m.Applies s →
    (m.search s).stepMany n = ((s.stepMany n).1, m.search (s.stepMany n).2) := by
  induction n with
  | zero => exact fun _ => rfl
  | succ n ih =>
    intro s h
    simp only [Search.stepMany, (step_search h).1, ih h.step, isSolved_search]

/-! ## Runs -/

theorem round_search {τ : Type} [StopCondition τ] (h : m.Applies s) (condition : τ) :
    (m.search s).round condition = m.run (s.round condition) := by
  unfold Search.round
  rw [isSolved_search]
  split
  · exact congrArg (Run.mk · _ _) (congrArg Verdict.satisfiable (m.assignment_state s.state))
  · dsimp only
    split
    · rfl
    · rw [(step_search h).1]
      rfl

/-- A call of solve on the image returns the image of what it returns. -/
theorem solveWithin_search {τ : Type} [StopCondition τ] (rounds : Nat) :
    ∀ {s : Search σ} (condition : τ), m.Applies s →
      (m.search s).solveWithin rounds condition = m.run (s.solveWithin rounds condition) := by
  induction rounds with
  | zero => exact fun _ _ => rfl
  | succ rounds ih =>
    intro s condition h
    have applies : m.Applies (s.round condition).search :=
      Search.round_induction (motive := m.Applies) (fun _ h => h.step) condition h
    rw [Search.solveWithin, Search.solveWithin, round_search h]
    generalize s.round condition = run at applies ⊢
    obtain ⟨_ | _ | _, t, next⟩ := run
    · rfl
    · rfl
    · exact ih next applies

/-- What is done to the image of a search leads to the image of where it leads. -/
theorem performAll_search {actions : List Search.Action} :
    ∀ {s : Search σ}, m.Applies s → (∀ action ∈ actions, action.Valid P) →
      (m.search s).performAll actions = m.search (s.performAll actions) ∧
        m.Applies (s.performAll actions) := by
  induction actions with
  | nil => exact fun h _ => ⟨rfl, h⟩
  | cons action rest ih =>
    intro s h valid
    rw [List.forall_mem_cons] at valid
    have first : (m.search s).perform action = m.search (s.perform action) ∧
        m.Applies (s.perform action) := by
      cases action with
      | flip p => exact ⟨flip_search h valid.1, h.flip valid.1⟩
      | step => exact step_search h
      | solve condition rounds =>
        exact ⟨congrArg Run.search (solveWithin_search rounds condition h),
          Search.solveWithin_induction (motive := m.Applies) (fun _ h => h.step) rounds condition h⟩
      | setNoise percent => exact ⟨rfl, h.congr rfl rfl⟩
    have next := ih first.2 valid.2
    rw [← first.1] at next
    exact next

end Simulation

end CardinalitySearch
