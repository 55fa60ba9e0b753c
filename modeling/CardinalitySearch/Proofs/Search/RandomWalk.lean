/-
CardinalitySearch.Proofs.Search.RandomWalk — random moves can reach every solution.

A violated constraint has a literal on which the assignment and a given
solution differ: if they agreed on all of its literals, the constraint would
have the same number of true literals under both.  A random move that flips
such a literal brings the assignment closer to the solution by one and leaves
the noise level alone.  So whoever draws the positions, with as many steps as
there are differences the search can be made to end, by drawing the coin and
the literal in each of them.

A step is made with chosen draws by giving the search a script for a source
(`redraw`), and what that step is comes from `Sound.step_cases`.

A search that counts in words has to be able to: with more copies of a literal than
a signed word can count, it may stand at the solution and not be solved
(`copies_unsolved_at_solution`).
-/
import CardinalitySearch.Proofs.Search.Copies
import CardinalitySearch.Proofs.Search.Soundness

namespace CardinalitySearch

/-! ## Differences between assignments -/

namespace Assignment

variable {a b : Assignment} {n : Nat}

/-- The number of propositions below `n` on which two assignments differ. -/
def distance (a b : Assignment) (n : Nat) : Nat :=
  ((List.range n).filter fun p => a.value p ≠ b.value p).length

/-- Toggling a proposition on which two assignments differ removes that
difference and no other. -/
theorem distance_toggle {p : Nat} (hp : p < n) (size : a.size = n)
    (differ : a.value p ≠ b.value p) : (a.toggle p).distance b n + 1 = a.distance b n := by
  have inside : p < a.size := size.symm ▸ hp
  let differences := (List.range n).filter fun q => a.value q ≠ b.value q
  have distinct : differences.Nodup := List.nodup_range.sublist List.filter_sublist
  have member : p ∈ differences := by simp [differences, hp, differ]
  have erased : ((List.range n).filter fun q => (a.toggle p).value q ≠ b.value q)
      = differences.erase p := by
    rw [distinct.erase_eq_filter, List.filter_filter]
    refine List.filter_congr fun q _ => ?_
    rw [value_toggle a inside]
    by_cases same : q = p
    · subst same
      revert differ
      cases a.value q <;> cases b.value q <;> simp
    · simp [same, Ne.symm same]
  have positive : 0 < differences.length := List.length_pos_of_mem member
  unfold distance
  rw [erased, List.length_erase_of_mem member]
  exact Nat.sub_add_cancel positive

end Assignment

/-- What violates a constraint differs from what satisfies it on a literal. -/
theorem Constraint.exists_differing {c : Constraint} {a b : Assignment}
    (violated : c.satisfiedBy a = false) (satisfied : c.satisfiedBy b = true) :
    ∃ l ∈ c.literals, a.value l.proposition ≠ b.value l.proposition := by
  refine Classical.byContradiction fun none => ?_
  have agree : ∀ l ∈ c.literals, a.value l.proposition = b.value l.proposition :=
    fun l hl => Classical.byContradiction fun differ => none ⟨l, hl, differ⟩
  rw [satisfiedBy, Assignment.countTrue_congr agree] at violated
  rw [satisfiedBy, violated] at satisfied
  exact Bool.false_ne_true satisfied

namespace Search

variable {σ : Type} {P : Problem} {s : Search σ}

/-! ## A step with chosen draws -/

/-- The violated constraint at a position. -/
def drawn? (s : Search σ) (position : Nat) : Option Constraint :=
  s.state.violated.toList[position]?.bind s.problem.constraint?

/-- A step with these draws of a violated constraint, of the coin and of a literal. -/
def stepOn (s : Search σ) (position coin index : Nat) : Search Script :=
  (s.redraw (⟨[position, coin, index], [], []⟩ : Script)).step

/-- A random move whose draws come first in a script. -/
theorem Sound.step_redraw (h : s.Sound P) (unsolved : s.isSolved = false)
    (noisy : 1 ≤ s.noise.percent) {c : Constraint} {l : Literal} {position index : Nat}
    (known : c ∈ P.constraints.toList)
    (picked : s.state.violated.toList[position % s.state.violatedCount]? = some c.id)
    (literal : c.literals[index]? = some l) (later : List Nat) (coins : List Bool)
    (history : List Draw) :
    (s.redraw (⟨position :: 0 :: index :: later, coins, history⟩ : Script)).step
      = (s.randomMove l).redraw ⟨later, coins, .number c.literals.length index ::
          .number Noise.maximum 0 ::
          .number s.state.violatedCount (position % s.state.violatedCount) :: history⟩ := by
  have inRange : index < c.literals.length := (List.getElem?_eq_some_iff.mp literal).1
  have cases :=
    (h.redraw (⟨position :: 0 :: index :: later, coins, history⟩ : Script)).step_cases
  generalize (s.redraw (⟨position :: 0 :: index :: later, coins, history⟩ : Script)).step = t
    at cases ⊢
  cases cases with
  | solved done =>
    rw [isSolved_redraw, unsolved] at done
    exact absurd done Bool.false_ne_true
  | @random d m _ coin _ s₁ s₂ s₃ _ known' drawn picked' tossed _ chosen literal' =>
    -- the draws from the script compute, and what the case has drawn is what was asked for
    obtain ⟨rfl, rfl⟩ := Prod.mk.inj drawn
    obtain ⟨rfl, rfl⟩ := Prod.mk.inj tossed
    obtain ⟨rfl, rfl⟩ := Prod.mk.inj chosen
    have same : d = c := by
      have ids : some c.id = some d.id := picked.symm.trans picked'
      have found := h.wellFormed.constraint?_id known'
      rw [← Option.some.inj ids, h.wellFormed.constraint?_id known] at found
      exact (Option.some.inj found).symm
    subst same
    have small : index % d.literals.length = index := Nat.mod_eq_of_lt inRange
    have literals : d.literals[index % d.literals.length]? = some m := literal'
    rw [small, literal, Option.some.injEq] at literals
    subst literals
    show (s.randomMove l).redraw (⟨later, coins,
      .number d.literals.length (index % d.literals.length) :: _⟩ : Script) = _
    rw [small]
    rfl
  | greedy _ _ drawn _ tossed tails _ =>
    -- a coin of zero lies below every positive level
    obtain ⟨rfl, rfl⟩ := Prod.mk.inj drawn
    obtain ⟨rfl, rfl⟩ := Prod.mk.inj tossed
    exact absurd noisy tails

variable {b : Assignment}

/-- At every position there is a constraint with a literal on which the
assignment and a solution differ. -/
theorem Sound.exists_differing (h : s.Sound P) (solution : P.satisfiedBy b = true)
    {position : Nat} (inside : position < s.state.violatedCount) :
    ∃ c ∈ P.constraints.toList, s.state.violated.toList[position]? = some c.id ∧
      ∃ (index : Nat) (l : Literal), c.literals[index]? = some l ∧
        l.proposition < P.propositionCount ∧
        s.state.assignment.value l.proposition ≠ b.value l.proposition := by
  rw [Satisfaction.violatedCount, ← SwapSet.length_toList] at inside
  have member := List.getElem_mem inside
  rw [h.exact.mem_violated_iff h.wellFormed, Problem.mem_violatedBy] at member
  obtain ⟨c, hc, violated, id⟩ := member
  have satisfied : c.satisfiedBy b = true := List.all_eq_true.mp solution c hc
  obtain ⟨l, hl, differ⟩ := Constraint.exists_differing violated satisfied
  obtain ⟨index, literal⟩ := List.mem_iff_getElem?.mp hl
  refine ⟨c, hc, ?_, index, l, literal, h.proposition_lt hc hl, differ⟩
  rw [List.getElem?_eq_getElem inside, id]

theorem Sound.drawn?_eq_some (h : s.Sound P) {c : Constraint} {position : Nat}
    (known : c ∈ P.constraints.toList)
    (picked : s.state.violated.toList[position]? = some c.id) : s.drawn? position = some c := by
  rw [drawn?, picked, Option.bind_some, h.problem, h.wellFormed.constraint?_id known]

/-- At every position there is a literal whose draw leads to a random move that
flips a difference. -/
theorem Sound.exists_draw (h : s.Sound P) (solution : P.satisfiedBy b = true)
    (unsolved : s.isSolved = false) (noisy : 1 ≤ s.noise.percent) {position : Nat}
    (inside : position < s.state.violatedCount) :
    ∃ c, s.drawn? position = some c ∧ ∃ index < c.literals.length, ∃ l : Literal,
      l.proposition < P.propositionCount ∧
      s.state.assignment.value l.proposition ≠ b.value l.proposition ∧
      ∀ (number : Nat) (later : List Nat) (coins : List Bool) (history : List Draw),
        number % s.state.violatedCount = position →
        (s.redraw (⟨number :: 0 :: index :: later, coins, history⟩ : Script)).step
          = (s.randomMove l).redraw ⟨later, coins, .number c.literals.length index ::
              .number Noise.maximum 0 :: .number s.state.violatedCount position :: history⟩ := by
  obtain ⟨c, known, picked, index, l, literal, hl, differ⟩ := h.exists_differing solution inside
  have inRange : index < c.literals.length := (List.getElem?_eq_some_iff.mp literal).1
  refine ⟨c, h.drawn?_eq_some known picked, index, inRange, l, hl, differ, ?_⟩
  rintro number later coins history rfl
  exact h.step_redraw unsolved noisy known picked literal later coins history

/-- A random move that flips a difference leaves one difference fewer. -/
theorem Sound.distance_randomMove (h : s.Sound P) {l : Literal}
    (hl : l.proposition < P.propositionCount)
    (differ : s.state.assignment.value l.proposition ≠ b.value l.proposition) :
    (s.randomMove l).state.assignment.distance b P.propositionCount + 1
      = s.state.assignment.distance b P.propositionCount := by
  rw [state_randomMove, Satisfaction.assignment_flip]
  exact Assignment.distance_toggle hl h.exact.size differ

/-- A search without differences to a solution is solved. -/
theorem Sound.isSolved_of_distance_eq_zero (h : s.Sound P) (solution : P.satisfiedBy b = true)
    (none : s.state.assignment.distance b P.propositionCount = 0) : s.isSolved = true := by
  cases unsolved : s.isSolved with
  | true => rfl
  | false =>
    obtain ⟨c, _, _, index, l, _, hl, differ⟩ :=
      h.exists_differing solution (violatedCount_pos unsolved)
    have fewer := h.distance_randomMove hl differ
    omega

/-! ## Whoever draws the positions -/

/-- Whatever positions are drawn, the search can be solved in so many steps by
draws of the coin and of the literal. -/
def SolvableWithin : Nat → Search Script → Prop
  | 0, s => s.isSolved = true
  | n + 1, s => s.isSolved = true ∨
    ∀ position < s.state.violatedCount, ∃ c, s.drawn? position = some c ∧
      ∃ coin < 100, ∃ index < c.literals.length, SolvableWithin n (s.stepOn position coin index)

/-- With as many steps as there are differences to a solution the search can be
solved. -/
theorem Sound.solvableWithin (solution : P.satisfiedBy b = true) (n : Nat) :
    ∀ {s : Search Script}, s.Sound P → 1 ≤ s.noise.percent →
      s.state.assignment.distance b P.propositionCount ≤ n → s.SolvableWithin n := by
  induction n with
  | zero =>
    intro s h _ near
    exact h.isSolved_of_distance_eq_zero solution (Nat.le_zero.mp near)
  | succ n ih =>
    intro s h noisy near
    cases unsolved : s.isSolved with
    | true => exact .inl unsolved
    | false =>
      refine .inr fun position inside => ?_
      obtain ⟨c, drawn, index, inRange, l, hl, differ, next⟩ :=
        h.exists_draw solution unsolved noisy inside
      have fewer := h.distance_randomMove hl differ
      refine ⟨c, drawn, 0, by decide, index, inRange, ?_⟩
      rw [stepOn, next position [] [] [] (Nat.mod_eq_of_lt inside)]
      refine ih ((h.randomMove hl).redraw _) noisy ?_
      rw [state_redraw]
      omega

/-! ## One script for a run -/

/-- The numbers of a run: in turn a position, a coin and an index for each step. -/
def runNumbers (positions : List Nat) (answers : List (Nat × Nat)) : List Nat :=
  (positions.zip answers).flatMap fun (position, coin, index) => [position, coin, index]

/-- For positions fixed beforehand there are coins and literals that solve the
search.  Each number of a script counts modulo the bound it is asked for, which
is how a list of numbers stands for positions before the bounds are known. -/
theorem Sound.exists_answers (solution : P.satisfiedBy b = true) (n : Nat) :
    ∀ {s : Search Script}, s.Sound P → 1 ≤ s.noise.percent →
      s.state.assignment.distance b P.propositionCount ≤ n →
      ∀ (positions : List Nat), positions.length = n → ∀ history : List Draw,
        ∃ answers : List (Nat × Nat), answers.length = n ∧
          ((s.redraw (⟨runNumbers positions answers, [], history⟩ : Script)).stepMany
            n).2.isSolved = true := by
  induction n with
  | zero =>
    intro s h _ near positions _ history
    exact ⟨[], rfl, h.isSolved_of_distance_eq_zero solution (Nat.le_zero.mp near)⟩
  | succ n ih =>
    intro s h noisy near positions count history
    obtain ⟨position, later, rfl⟩ : ∃ position later, positions = position :: later :=
      List.exists_cons_of_length_eq_add_one count
    cases unsolved : s.isSolved with
    | true =>
      refine ⟨List.replicate (n + 1) (0, 0), List.length_replicate, ?_⟩
      rw [stepMany_of_isSolved (by exact unsolved)]
      exact unsolved
    | false =>
      have inside := Nat.mod_lt position (violatedCount_pos unsolved)
      obtain ⟨c, _, index, _, l, hl, differ, next⟩ :=
        h.exists_draw solution unsolved noisy inside
      have fewer := h.distance_randomMove hl differ
      have near' : (s.randomMove l).state.assignment.distance b P.propositionCount ≤ n := by
        omega
      obtain ⟨answers, length, solved⟩ :=
        ih (h.randomMove hl) noisy near' later (Nat.succ.inj count) _
      refine ⟨(0, index) :: answers, by rw [List.length_cons, length], ?_⟩
      show (stepMany n (s.redraw (⟨position :: 0 :: index :: runNumbers later answers, [],
        history⟩ : Script)).step).2.isSolved = true
      rw [next position (runNumbers later answers) [] history rfl]
      exact solved

/-- Let an assignment satisfy every constraint, and let the noise level of a
reachable search be at least one.  At every position that can be drawn some
coin and some literal make the next step flip a proposition on which the
current assignment is different, and leave the noise level alone.  So the
search can be solved in as many steps as there are differences, against
positions that are chosen as it goes and for positions fixed beforehand.  It counts
in words, which have to fit the sizes of the problem. -/
theorem random_walk_reaches_solution [InRangeSource σ] (hP : P.Built .words)
    (small : P.FitsWords) (hs : s.Reachable P)
    {solution : Assignment}
    (satisfying : ∀ c ∈ P.constraints.toList,
      c.atLeast ≤ solution.countTrue c.literals ∧ solution.countTrue c.literals ≤ c.atMost)
    (noisy : 1 ≤ s.noise.percent) :
    (s.isSolved = false → ∀ position < s.state.violatedCount,
      ∃ c, s.drawn? position = some c ∧
        ∃ coin < 100, ∃ index < c.literals.length, ∃ p < P.propositionCount,
          s.state.assignment.value p ≠ solution.value p ∧
          (s.stepOn position coin index).state = s.state.flip P p ∧
          (s.stepOn position coin index).noise = s.noise ∧
          (s.stepOn position coin index).source.draws
            = [.number s.state.violatedCount position, .number 100 coin,
                .number c.literals.length index]) ∧
    (s.redraw ⟨[], [], []⟩).SolvableWithin
      (s.state.assignment.distance solution P.propositionCount) ∧
    (∀ positions : List Nat,
      positions.length = s.state.assignment.distance solution P.propositionCount →
      ∃ answers : List (Nat × Nat), answers.length = positions.length ∧
        ((s.redraw (⟨runNumbers positions answers, [], []⟩ : Script)).stepMany
          positions.length).2.isSolved = true) := by
  have sound := hs.sound (hP.wellFormed_words small)
  have satisfied : P.satisfiedBy solution = true := (P.satisfiedBy_iff solution).mpr satisfying
  refine ⟨?_, ?_, ?_⟩
  · intro unsolved position inside
    obtain ⟨c, drawn, index, inRange, l, hl, differ, next⟩ :=
      sound.exists_draw satisfied unsolved noisy inside
    refine ⟨c, drawn, 0, by decide, index, inRange, l.proposition, hl, differ, ?_⟩
    rw [stepOn, next position [] [] [] (Nat.mod_eq_of_lt inside)]
    refine ⟨?_, rfl, rfl⟩
    rw [state_redraw, state_randomMove, sound.problem]
  · exact (sound.redraw _).solvableWithin satisfied _ noisy (Nat.le_refl _)
  · intro positions count
    have near := Nat.le_of_eq count.symm
    exact (sound.redraw (⟨[], [], []⟩ : Script)).exists_answers satisfied _ noisy near
      positions rfl []

theorem random_walk_reaches_solution_sample :
    (sampleSearch .words).isSolved = false ∧ 1 ≤ (sampleSearch .words).noise.percent ∧
      ((sampleSearch .words).redraw ⟨[], [], []⟩).SolvableWithin 3 := by
  have satisfying : ∀ c ∈ (sampleProblem .words).constraints.toList,
      c.atLeast ≤ Assignment.countTrue ⟨#[false, false, true]⟩ c.literals ∧
        Assignment.countTrue ⟨#[false, false, true]⟩ c.literals ≤ c.atMost := by decide
  have noisy : 1 ≤ (sampleSearch .words).noise.percent := by decide
  have walk := random_walk_reaches_solution sampleProblem_built sampleProblem_fitsWords
    sampleSearch_reachable satisfying noisy
  exact ⟨by decide, noisy, walk.2.1⟩

/-- If all of 2147483648 copies have to be true, in words a search can be unsolved with no
difference left to the solution. -/
theorem copies_unsolved_at_solution :
    let C := Copies.least 2147483648 2147483648
    let s := ((C.start true 50 (⟨[], [], []⟩ : Script)).flip 0).flip 0
    let solution : Assignment := ⟨#[true]⟩
    s.Reachable C.problem ∧ (∀ c ∈ C.problem.constraints.toList,
        c.atLeast ≤ solution.countTrue c.literals ∧ solution.countTrue c.literals ≤ c.atMost) ∧
      1 ≤ s.noise.percent ∧ s.state.assignment = solution ∧ s.isSolved = false := by
  intro C s solution
  have kept : C.keptWeight ≠ 0 := Copies.keptWeight_least_ne_zero _
  have here : C.InState s true _ _ :=
    ((Copies.inState_start true 50 (⟨[], [], []⟩ : Script)).flip kept).flip kept
  refine ⟨Copies.reachable_flip (Copies.reachable_flip (Copies.reachable_start true 50 _)), ?_,
    by decide, ?_, ?_⟩
  · intro c hc
    rw [C.toList_constraints, List.mem_singleton] at hc
    rw [hc, C.countTrue_literals]
    decide
  · rw [here.state]
    rfl
  · rw [here.isSolved]
    decide

end Search

end CardinalitySearch
