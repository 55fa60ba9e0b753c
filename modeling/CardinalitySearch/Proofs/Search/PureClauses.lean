/-
CardinalitySearch.Proofs.Search.PureClauses — problems on which no step is wrong.

Let every constraint be a clause and let no proposition occur with both signs.
A violated clause then has false literals only, and a step makes one of them
true.  That satisfies the clause and breaks no other one, whether the literal
was drawn or was the best one, so noise and adaptation play no part.

Two measures fall with every step: the number of violated constraints, and the
number of propositions whose value differs from the sign with which they
occur.  Each of them bounds the number of steps to a solution
(`isSolved_stepMany_of_falls`), and a budget of so many steps is enough, since
a search that is solved by the last step of its budget is not asked again.

The first measure is read off counts that are kept in words.  In a clause that is too
long for them a step may gain nothing (`copies_step_without_improvement`).
-/
import Mathlib.Data.List.Perm.Subperm
import CardinalitySearch.Proofs.Satisfaction.Gain
import CardinalitySearch.Proofs.Search.Copies
import CardinalitySearch.Proofs.Search.RandomWalk
import CardinalitySearch.Proofs.Search.Solving

namespace CardinalitySearch

/-! ## Clauses -/

/-- The constraint asks for at least one true literal and for no more than that. -/
def Constraint.IsClause (c : Constraint) : Prop :=
  c.atLeast = 1 ∧ c.atMost = c.literals.length

instance : DecidablePred Constraint.IsClause :=
  fun c => inferInstanceAs (Decidable (c.atLeast = 1 ∧ c.atMost = c.literals.length))

/-- A clause is violated when all of its literals are false. -/
theorem Constraint.IsClause.satisfiedBy_eq_false_iff {c : Constraint} (clause : c.IsClause)
    (a : Assignment) :
    c.satisfiedBy a = false ↔ ∀ l ∈ c.literals, a.holds l = false := by
  obtain ⟨atLeast, atMost⟩ := clause
  have few : a.countTrue c.literals ≤ c.literals.length := List.countP_le_length
  have none : a.countTrue c.literals = 0 ↔ ∀ l ∈ c.literals, a.holds l = false := by
    simp [Assignment.countTrue, List.countP_eq_zero]
  rw [c.satisfiedBy_eq_false_iff, atLeast, atMost, ← none]
  omega

namespace Problem

/-- The literals of all constraints. -/
def literals (P : Problem) : List Literal :=
  P.constraints.toList.flatMap (·.literals)

/-- Every constraint is a clause, and literals over one proposition are equal. -/
structure PureClauses (P : Problem) : Prop where
  clause : ∀ c ∈ P.constraints.toList, c.IsClause
  oneSign : ∀ l ∈ P.literals, ∀ m ∈ P.literals, l.proposition = m.proposition → l = m

/-- The assignment in which the propositions that occur positively are true. -/
def signs (P : Problem) : Assignment :=
  ⟨((List.range P.propositionCount).map fun p => decide (⟨p, true⟩ ∈ P.literals)).toArray⟩

variable {P : Problem}

theorem mem_literals {c : Constraint} (hc : c ∈ P.constraints.toList) {l : Literal}
    (hl : l ∈ c.literals) : l ∈ P.literals :=
  List.mem_flatMap.mpr ⟨c, hc, hl⟩

theorem WellFormed.proposition_lt (hP : P.WellFormed) {l : Literal} (hl : l ∈ P.literals) :
    l.proposition < P.propositionCount := by
  obtain ⟨c, hc, hl⟩ := List.mem_flatMap.mp hl
  exact (hP.admissible c hc).proposition_lt l hl

namespace PureClauses

variable {a : Assignment} {c : Constraint} {l : Literal}

theorem value_signs (pure : P.PureClauses) (hP : P.WellFormed) (hl : l ∈ P.literals) :
    P.signs.value l.proposition = l.positive := by
  have inside : l.proposition < P.propositionCount := hP.proposition_lt hl
  have value : P.signs.value l.proposition = decide (⟨l.proposition, true⟩ ∈ P.literals) := by
    simp [signs, Assignment.value, Assignment.value?, inside]
  rw [value]
  obtain ⟨p, positive⟩ := l
  cases positive with
  | true => simpa using hl
  | false =>
    have absent : (⟨p, true⟩ : Literal) ∉ P.literals := fun other => by
      have same := pure.oneSign _ other _ hl rfl
      simp at same
    simpa using absent

/-- Making a false literal true makes the literals over its proposition true and
leaves all others alone. -/
theorem holds_toggle (pure : P.PureClauses) (size : a.size = P.propositionCount)
    (hP : P.WellFormed) (hl : l ∈ P.literals) (wrong : a.holds l = false) {m : Literal}
    (hm : m ∈ P.literals) :
    (a.toggle l.proposition).holds m = if m.proposition = l.proposition then true else a.holds m := by
  have inside : l.proposition < a.size := size ▸ hP.proposition_lt hl
  rw [a.holds_toggle inside]
  split
  · next same =>
    rw [pure.oneSign m hm l hl same, wrong]
    rfl
  · rfl

/-- A flip of a false literal of a violated clause satisfies that clause and
violates none that was satisfied. -/
theorem one_le_gain (pure : P.PureClauses) (hP : P.WellFormed)
    (size : a.size = P.propositionCount) (hc : c ∈ P.constraints.toList)
    (violated : c.satisfiedBy a = false) (hl : l ∈ c.literals) :
    1 ≤ P.gain a l.proposition := by
  have known := mem_literals hc hl
  have wrong : a.holds l = false := (pure.clause c hc).satisfiedBy_eq_false_iff a |>.mp violated l hl
  have after : ∀ m ∈ P.literals, (a.toggle l.proposition).holds m
      = if m.proposition = l.proposition then true else a.holds m :=
    fun m hm => pure.holds_toggle size hP known wrong hm
  have satisfied : c.id ∉ P.violatedBy (a.toggle l.proposition) := by
    rw [hP.id_mem_violatedBy_iff hc, (pure.clause c hc).satisfiedBy_eq_false_iff]
    intro none
    have := none l hl
    rw [after l known] at this
    simp at this
  have kept : P.violatedBy (a.toggle l.proposition) ⊆ P.violatedBy a := by
    intro i hi
    obtain ⟨d, hd, still, rfl⟩ := mem_violatedBy.mp hi
    refine (hP.id_mem_violatedBy_iff hd).mpr ?_
    rw [(pure.clause d hd).satisfiedBy_eq_false_iff] at still ⊢
    intro m hm
    have := still m hm
    rw [after m (mem_literals hd hm)] at this
    split at this
    · simp at this
    · exact this
  -- the violated clause and those violated afterwards are all among those violated before
  have distinct : (c.id :: P.violatedBy (a.toggle l.proposition)).Nodup :=
    List.nodup_cons.mpr ⟨satisfied, hP.violatedBy_nodup _⟩
  have among : c.id :: P.violatedBy (a.toggle l.proposition) ⊆ P.violatedBy a :=
    List.cons_subset.mpr ⟨(hP.id_mem_violatedBy_iff hc).mpr violated, kept⟩
  have fewer := (distinct.subperm among).length_le
  rw [List.length_cons] at fewer
  unfold Problem.gain
  omega

end PureClauses

end Problem

namespace Search

variable {σ : Type}

/-! ## Measures of a run -/

section

variable [RandomSource σ]

/-- A measure that falls with every step of an unsolved search bounds the number
of steps to a solution. -/
theorem isSolved_stepMany_of_falls {motive : Search σ → Prop} (measure : Search σ → Nat)
    (kept : ∀ s, motive s → motive s.step)
    (falls : ∀ s, motive s → s.isSolved = false → measure s.step < measure s) (n : Nat) :
    ∀ {s : Search σ}, motive s → measure s ≤ n → (s.stepMany n).2.isSolved = true := by
  induction n with
  | zero =>
    intro s hs small
    cases unsolved : s.isSolved with
    | true => exact unsolved
    | false =>
      have := falls s hs unsolved
      omega
  | succ n ih =>
    intro s hs small
    cases unsolved : s.isSolved with
    | true => rw [stepMany_of_isSolved unsolved, unsolved]
    | false =>
      have := falls s hs unsolved
      exact ih (kept s hs) (by omega)

/-- With a budget of steps in which the search gets solved, solving returns the
assignment after them; the budget may be used up by then. -/
theorem verdict_solveWithin_steps (n : Nat) {s : Search σ} {budget rounds : Nat}
    (solved : (s.stepMany n).2.isSolved = true) (enough : n ≤ budget) (more : n < rounds) :
    (s.solveWithin rounds (Limit.steps budget)).verdict
      = .satisfiable (s.stepMany n).2.state.assignment := by
  obtain ⟨k, small, ends⟩ := s.exists_endsAt (Limit.steps budget) (.inl solved)
  have first : (s.stepMany k).2.isSolved = true := by
    refine ends.ends.elim id fun spent => ?_
    rw [Limit.answer_steps, decide_eq_true_eq] at spent
    rwa [Nat.le_antisymm small (Nat.le_trans enough spent)]
  obtain ⟨rest, rfl⟩ := Nat.exists_eq_add_of_le small
  rw [ends.solveWithin_eq (Nat.lt_of_le_of_lt small more), if_pos first, stepMany_add,
    stepMany_of_isSolved first]

end

/-! ## Steps on pure clauses -/

variable [InRangeSource σ] {P : Problem} {s : Search σ}

/-- A step of an unsolved search flips a false literal of a violated clause, and
records a gain. -/
theorem Sound.exists_improvement (h : s.Sound P) (pure : P.PureClauses)
    (unsolved : s.isSolved = false) :
    ∃ c ∈ P.constraints.toList, ∃ l ∈ c.literals, ∃ improvement : Int,
      s.state.assignment.holds l = false ∧ s.step.state = s.state.flip P l.proposition ∧
      s.step.state.lastFlip = some ⟨l, improvement⟩ ∧ 1 ≤ improvement ∧
      (s.state.violatedCount : Int) = s.step.state.violatedCount + improvement := by
  obtain ⟨c, hc, violated, l, hl, flipped⟩ := h.exists_flipped unsolved
  have known : l.proposition < P.propositionCount := h.proposition_lt hc hl
  have wrong : s.state.assignment.holds l = false :=
    (pure.clause c hc).satisfiedBy_eq_false_iff _ |>.mp violated l hl
  have value : (!s.state.assignment.value l.proposition) = l.positive := by
    revert wrong
    unfold Assignment.holds Literal.evaluate
    cases s.state.assignment.value l.proposition <;> cases l.positive <;> simp
  have last := h.exact.lastFlip_flip h.wellFormed known
  have before := h.exact.violatedCount_eq h.wellFormed
  have after := (h.exact.flip h.wellFormed known).violatedCount_eq h.wellFormed
  refine ⟨c, hc, l, hl, P.gain s.state.assignment l.proposition, wrong, flipped, ?_,
    pure.one_le_gain h.wellFormed h.exact.size hc violated hl, ?_⟩
  · rw [flipped, last, value]
  · rw [flipped, before, after, Satisfaction.assignment_flip, Problem.gain]
    omega

/-- Every step of an unsolved search brings the assignment closer to the signs. -/
theorem Sound.distance_step (h : s.Sound P) (pure : P.PureClauses)
    (unsolved : s.isSolved = false) :
    s.step.state.assignment.distance P.signs P.propositionCount + 1
      = s.state.assignment.distance P.signs P.propositionCount := by
  obtain ⟨c, hc, l, hl, _, wrong, flipped, -⟩ := h.exists_improvement pure unsolved
  rw [flipped, Satisfaction.assignment_flip]
  refine Assignment.distance_toggle (h.proposition_lt hc hl) h.exact.size fun same => ?_
  rw [pure.value_signs h.wellFormed (Problem.mem_literals hc hl)] at same
  simp [Assignment.holds, Literal.evaluate, same] at wrong

theorem Sound.isSolved_stepMany_violatedCount (h : s.Sound P) (pure : P.PureClauses) {n : Nat}
    (enough : s.state.violatedCount ≤ n) : (s.stepMany n).2.isSolved = true := by
  refine isSolved_stepMany_of_falls (motive := fun s => s.Sound P) (·.state.violatedCount)
    (fun _ ht => ht.step) ?_ n h enough
  intro t ht unsolved
  obtain ⟨_, _, _, _, improvement, -, -, -, gained, change⟩ := ht.exists_improvement pure unsolved
  omega

theorem Sound.isSolved_stepMany_propositionCount (h : s.Sound P) (pure : P.PureClauses) {n : Nat}
    (enough : P.propositionCount ≤ n) : (s.stepMany n).2.isSolved = true := by
  have near : s.state.assignment.distance P.signs P.propositionCount ≤ P.propositionCount :=
    Nat.le_trans (List.length_filter_le _ _) (Nat.le_of_eq List.length_range)
  refine isSolved_stepMany_of_falls (motive := fun s => s.Sound P)
    (·.state.assignment.distance P.signs P.propositionCount) (fun _ ht => ht.step) ?_ n h
    (Nat.le_trans near enough)
  intro t ht unsolved
  have closer := ht.distance_step pure unsolved
  omega

/-- Let every constraint be a clause and no proposition occur with both signs.
From every state of every run, a step of an unsolved search flips a
proposition to the sign with which it occurs and lowers the number of violated
constraints.  The search is solved after as many steps as constraints were
violated, and after as many as there are propositions, and solving with a
budget of at least the former finds a solution; any limit on the rounds above it
will do.  The search counts in words, which have to fit the sizes of the problem. -/
theorem pure_clauses_converge (hP : P.Built .words) (small : P.FitsWords)
    (pure : P.PureClauses) (hs : s.Reachable P) :
    (s.isSolved = false → ∃ c ∈ P.constraints.toList, ∃ l ∈ c.literals, ∃ improvement : Int,
      s.step.state.lastFlip = some ⟨l, improvement⟩ ∧ 1 ≤ improvement ∧
      s.step.state.assignment = s.state.assignment.toggle l.proposition ∧
      s.step.state.assignment.value l.proposition = l.positive ∧
      (∀ d ∈ P.constraints.toList, ∀ m ∈ d.literals, m.proposition = l.proposition →
        s.state.assignment.holds m = false ∧ s.step.state.assignment.holds m = true) ∧
      (s.state.violatedCount : Int) = s.step.state.violatedCount + improvement) ∧
    (∀ n, s.state.violatedCount ≤ n → (s.stepMany n).2.isSolved = true) ∧
    (∀ n, P.propositionCount ≤ n → (s.stepMany n).2.isSolved = true) ∧
    (∀ budget rounds, s.state.violatedCount ≤ budget → s.state.violatedCount < rounds →
      (s.solveWithin rounds (Limit.steps budget)).verdict
        = .satisfiable (s.stepMany s.state.violatedCount).2.state.assignment) := by
  have sound := hs.sound (hP.wellFormed_words small)
  refine ⟨?_, ?_, ?_, ?_⟩
  · intro unsolved
    obtain ⟨c, hc, l, hl, improvement, wrong, flipped, last, gained, change⟩ :=
      sound.exists_improvement pure unsolved
    have known := Problem.mem_literals hc hl
    have toggled : s.step.state.assignment = s.state.assignment.toggle l.proposition := by
      rw [flipped, Satisfaction.assignment_flip]
    have affected : ∀ d ∈ P.constraints.toList, ∀ m ∈ d.literals, m.proposition = l.proposition →
        s.state.assignment.holds m = false ∧ s.step.state.assignment.holds m = true := by
      intro d hd m hm same
      obtain rfl := pure.oneSign m (Problem.mem_literals hd hm) l known same
      refine ⟨wrong, ?_⟩
      rw [toggled, pure.holds_toggle sound.exact.size sound.wellFormed known wrong known, if_pos rfl]
    have right := (affected c hc l hl rfl).2
    rw [Assignment.holds, Literal.evaluate_eq_true_iff] at right
    exact ⟨c, hc, l, hl, improvement, last, gained, toggled, right, affected, change⟩
  · exact fun n enough => sound.isSolved_stepMany_violatedCount pure enough
  · exact fun n enough => sound.isSolved_stepMany_propositionCount pure enough
  · intro budget rounds enough more
    have solved := sound.isSolved_stepMany_violatedCount pure (Nat.le_refl _)
    exact verdict_solveWithin_steps _ solved enough more

/-- Three clauses that share their propositions and repeat a literal. -/
def monotoneProblem : Problem :=
  (Draft.ofSteps [.parse "a | !b | a", .parse "c | a", .parse "[1,3] !b | !b | d"]
    .words).build .words

/-- A search on it that starts with every literal false. -/
def monotoneSearch : Search Script :=
  ofAssignment monotoneProblem ⟨60, true⟩ ⟨#[false, true, false, false]⟩ ⟨[2, 70, 0, 10, 1], [], []⟩

theorem pure_clauses_converge_sample :
    monotoneSearch.state.violatedCount = 3 ∧ (monotoneSearch.stepMany 1).2.isSolved = false ∧
      (monotoneSearch.stepMany 3).2.isSolved = true ∧
      (monotoneSearch.solveWithin 4 (Limit.steps 3)).verdict
        = .satisfiable (monotoneSearch.stepMany 3).2.state.assignment := by
  have built : monotoneProblem.Built .words := .ofSteps _
  have small : monotoneProblem.FitsWords := ⟨by decide, by decide⟩
  have pure : monotoneProblem.PureClauses := ⟨by decide, by decide⟩
  have started : monotoneSearch.Reachable monotoneProblem :=
    ⟨⟨60, true⟩, .given #[false, true, false, false], ⟨[2, 70, 0, 10, 1], [], []⟩, _, [], rfl,
      by decide, rfl⟩
  have converge := pure_clauses_converge built small pure started
  exact ⟨by decide, by decide, converge.2.1 3 (by decide),
    converge.2.2.2 3 4 (by decide) (by decide)⟩

/-- In words a step makes 2147483648 copies in a clause true and the clause stays
violated. -/
theorem copies_step_without_improvement :
    let C := Copies.least 1 2147483648
    let s := C.start false 0 (⟨[], [], []⟩ : Script)
    C.problem.PureClauses ∧ s.Reachable C.problem ∧ s.isSolved = false ∧
      s.step.state.lastFlip = some ⟨⟨0, true⟩, 0⟩ ∧ s.step.isSolved = false := by
  intro C s
  have here : C.InState s false _ none := Copies.inState_start false 0 _
  have unsolved : C.constraint.accepts (C.counted false) = false := by decide
  have after := here.step (Copies.keptWeight_least_ne_zero _) unsolved
  have only : ∀ l ∈ C.problem.literals, l = C.literal := fun l hl => by
    rw [Problem.literals, C.toList_constraints, List.flatMap_singleton] at hl
    exact C.eq_literal_of_mem hl
  have pure : C.problem.PureClauses := by
    refine ⟨fun c hc => ?_, fun l hl m hm _ => (only l hl).trans (only m hm).symm⟩
    rw [C.toList_constraints, List.mem_singleton] at hc
    rw [hc]
    exact ⟨rfl, C.length_literals.symm⟩
  refine ⟨pure, Copies.reachable_start false 0 _, here.isSolved.trans unsolved, ?_, ?_⟩
  · rw [after.state]
    decide
  · rw [after.isSolved]
    decide

end Search

end CardinalitySearch
