/-
CardinalitySearch.Proofs.Search.Asking — how often a call of solve asks.

Three parties take turns in a call of solve: the search, its source and the
stop condition.  Only the condition knows how often it was asked, so it is given
a counter (`Counted`), which changes none of its answers.  What the counter says
at the end of a call is then what the loop itself has done.

A call ends after the first number `k` of steps at which the search is solved or
the answer to question `k` is yes, whatever the condition, and only there.
Question `j` is put to the condition after `j` steps, and it is not put where
the search is solved.  So there are `k` questions if the call finds a solution
and one more if it does not, and a solution found where the condition would have
said yes is still a solution.
-/
import CardinalitySearch.Proofs.Search.Counters

namespace CardinalitySearch

/-- A stop condition with the number of questions it was asked. -/
structure Counted (τ : Type) where
  /-- The condition. -/
  condition : τ
  /-- How many questions it has answered. -/
  asked : Nat
deriving DecidableEq

namespace Counted

variable {τ : Type} [StopCondition τ]

/-- Answers as the condition does and counts the question. -/
def query (c : Counted τ) : Bool × Counted τ :=
  let (stop, condition) := StopCondition.query c.condition
  (stop, ⟨condition, c.asked + 1⟩)

instance : StopCondition (Counted τ) where
  query := query

theorem after_eq (c : Counted τ) (k : Nat) :
    StopCondition.after c k = ⟨StopCondition.after c.condition k, c.asked + k⟩ := by
  induction k generalizing c with
  | zero => rfl
  | succ k ih =>
    show StopCondition.after c.query.2 k = _
    rw [ih]
    show (⟨_, c.asked + 1 + k⟩ : Counted τ) = ⟨_, c.asked + (k + 1)⟩
    rw [Nat.add_right_comm, Nat.add_assoc]
    rfl

/-- Counting changes no answer. -/
theorem answer_eq (c : Counted τ) (k : Nat) :
    StopCondition.answer c k = StopCondition.answer c.condition k := by
  rw [StopCondition.answer, after_eq]
  rfl

end Counted

namespace Search

variable {σ : Type}

/-- The verdict on a search that makes no more steps says whether it is solved. -/
theorem standing_eq_satisfiable_iff (t : Search σ) (solution : Assignment) :
    t.standing = .satisfiable solution ↔ t.isSolved = true ∧ solution = t.state.assignment := by
  unfold standing
  split
  · next solved => simp [solved, eq_comm]
  · next unsolved => simp [unsolved]

theorem standing_eq_unknown_iff (t : Search σ) : t.standing = .unknown ↔ t.isSolved = false := by
  unfold standing
  cases t.isSolved <;> simp

variable {τ : Type} [RandomSource σ] [StopCondition τ] {s : Search σ} {condition : τ} {k : Nat}

open StopCondition (after answer)

/-! ## Questions of a call -/

/-- A call with a counted condition ends where one without the counter ends. -/
theorem EndsAt.counted (h : s.EndsAt condition k) (asked : Nat) :
    s.EndsAt (Counted.mk condition asked) k where
  ends := by
    rw [Counted.answer_eq]
    exact h.ends
  unsolved := h.unsolved
  admitted j hj := by
    rw [Counted.answer_eq]
    exact h.admitted j hj

/-- The number of questions of a call that ends after `k` steps. -/
def questions (s : Search σ) (k : Nat) : Nat :=
  if (s.stepMany k).2.isSolved then k else k + 1

/-- What a call leaves, by the number of its questions. -/
theorem EndsAt.solveWithin_eq_standing (h : s.EndsAt condition k) {rounds : Nat}
    (enough : k < rounds) :
    s.solveWithin rounds condition
      = ⟨(s.stepMany k).2.standing, (s.stepMany k).2, after condition (s.questions k)⟩ := by
  rw [h.solveWithin_eq enough, standing, questions]
  split <;> rfl

/-- The counter of a counted condition says this number at the end. -/
theorem EndsAt.solveWithin_counted (h : s.EndsAt condition k) {rounds : Nat}
    (enough : k < rounds) :
    s.solveWithin rounds (Counted.mk condition 0)
      = ⟨(s.stepMany k).2.standing, (s.stepMany k).2,
          ⟨after condition (s.questions k), s.questions k⟩⟩ := by
  rw [(h.counted 0).solveWithin_eq_standing enough, Counted.after_eq, Nat.zero_add]

/-- No question is put to the condition where the search is solved. -/
theorem EndsAt.unsolved_of_lt_questions (h : s.EndsAt condition k) {j : Nat}
    (put : j < s.questions k) : (s.stepMany j).2.isSolved = false := by
  unfold questions at put
  split at put
  · exact h.unsolved j put
  · next unsolved =>
    rcases Nat.lt_succ_iff_lt_or_eq.mp put with before | rfl
    · exact h.unsolved j before
    · simpa using unsolved

/-- When question `j` is put, `j` steps were made and `j` questions answered with no. -/
theorem EndsAt.solveWithin_of_lt_questions (h : s.EndsAt condition k) {j : Nat}
    (put : j < s.questions k) :
    s.solveWithin j (Counted.mk condition 0)
      = ⟨.unfinished, (s.stepMany j).2, ⟨after condition j, j⟩⟩ := by
  have le : j ≤ k := by
    unfold questions at put
    split at put <;> omega
  have run := solveWithin_add j 0 (fun i hi => h.unsolved i (by omega))
    (fun i hi => (h.counted 0).admitted i (by omega))
  rw [Counted.after_eq, Nat.zero_add] at run
  exact run

/-! ## Budgets -/

/-- A search that is not solved has not been solved before. -/
theorem isSolved_stepMany_of_le {j : Nat} (le : j ≤ k)
    (unsolved : (s.stepMany k).2.isSolved = false) : (s.stepMany j).2.isSolved = false := by
  obtain ⟨rest, rfl⟩ := Nat.exists_eq_add_of_le le
  rw [Bool.eq_false_iff] at unsolved ⊢
  intro solved
  rw [stepMany_add, stepMany_of_isSolved solved] at unsolved
  exact unsolved solved

/-- A call with a budget finds nothing exactly if no step of the budget solves the search. -/
theorem verdict_solveWithin_steps_eq_unknown_iff (s : Search σ) {budget rounds : Nat}
    (enough : budget < rounds) :
    (s.solveWithin rounds (Limit.steps budget)).verdict = .unknown ↔
      ∀ j ≤ budget, (s.stepMany j).2.isSolved = false := by
  rw [(s.solveWithin_steps enough).2, standing_eq_unknown_iff]
  exact ⟨fun unsolved j le => isSolved_stepMany_of_le le unsolved,
    fun unsolved => unsolved budget (Nat.le_refl _)⟩

end Search

namespace Search

variable {σ : Type} [InRangeSource σ] {P : Problem} {s : Search σ}

open StopCondition (after answer)

/-- From every state of every run and for every stop condition: a call of solve comes
to a verdict exactly if there is a first number `k` of steps at which the search is
solved or the answer to question `k` is yes.  It then ends in the search after `k`
steps, which its counter has grown by; it has found a solution if that search is
solved, whatever the answer there; and the condition was asked once before each step
and once more if nothing was found, each time with the search not solved.  A call with
a budget ends within the budget, and it finds nothing exactly if the search is not
solved by any number of steps up to the budget, all of which are made then.  Any limit
on the rounds above the steps made gives the same. -/
theorem solveWithin_asks_until_end (hP : P.Built) (hs : s.Reachable P) :
    (∀ {τ : Type} [StopCondition τ] (condition : τ) (rounds : Nat),
      (s.solveWithin rounds condition).verdict ≠ .unfinished ↔
        ∃ k < rounds, s.EndsAt condition k) ∧
    (∀ {τ : Type} [StopCondition τ] (condition : τ) (k rounds : Nat),
      s.EndsAt condition k → k < rounds →
      let run := s.solveWithin rounds condition
      let counted := s.solveWithin rounds (Counted.mk condition 0)
      let t := (s.stepMany k).2
      let questions := if t.isSolved then k else k + 1
      run.search = t ∧ t.counters.steps = s.counters.steps + k ∧
      (∀ solution, run.verdict = .satisfiable solution ↔
        t.isSolved = true ∧ solution = t.state.assignment) ∧
      (run.verdict = .unknown ↔ t.isSolved = false) ∧
      run.condition = after condition questions ∧
      counted.verdict = run.verdict ∧ counted.search = t ∧ counted.condition.asked = questions ∧
      (∀ j < questions, (s.stepMany j).2.isSolved = false ∧
        s.solveWithin j (Counted.mk condition 0)
          = ⟨.unfinished, (s.stepMany j).2, ⟨after condition j, j⟩⟩)) ∧
    (∀ budget rounds : Nat, budget < rounds →
      let run := s.solveWithin rounds (Limit.steps budget)
      (∃ k ≤ budget, s.EndsAt (Limit.steps budget) k) ∧
      (run.verdict = .unknown ↔ ∀ j ≤ budget, (s.stepMany j).2.isSolved = false) ∧
      (run.verdict = .unknown → run.search = (s.stepMany budget).2 ∧
        run.search.counters.steps = s.counters.steps + budget)) := by
  have sound := hs.sound hP.wellFormed
  refine ⟨?_, ?_, ?_⟩
  · intro τ _ condition rounds
    refine ⟨exists_endsAt_of_verdict rounds, ?_⟩
    rintro ⟨k, enough, ends⟩
    rw [ends.solveWithin_eq_standing enough, standing]
    split <;> simp
  · intro τ _ condition k rounds ends enough run counted t questions
    have plain : run = ⟨t.standing, t, after condition questions⟩ :=
      ends.solveWithin_eq_standing enough
    have counts : counted = ⟨t.standing, t, ⟨after condition questions, questions⟩⟩ :=
      ends.solveWithin_counted enough
    rw [plain, counts]
    exact ⟨rfl, sound.steps_stepMany ends.unsolved, t.standing_eq_satisfiable_iff,
      t.standing_eq_unknown_iff, rfl, rfl, rfl, rfl,
      fun j put => ⟨ends.unsolved_of_lt_questions put, ends.solveWithin_of_lt_questions put⟩⟩
  · intro budget rounds enough run
    have nothing := s.verdict_solveWithin_steps_eq_unknown_iff enough
    have search := (s.solveWithin_steps enough).1
    refine ⟨s.exists_endsAt (Limit.steps budget) (.inr (by simp [Limit.answer_steps])),
      nothing, fun unknown => ⟨search, ?_⟩⟩
    rw [search]
    exact sound.steps_stepMany fun j hj => nothing.mp unknown j (Nat.le_of_lt hj)

/-- The step after the first question solves the search, and the condition, which would
say yes by then, is not asked again. -/
theorem solveWithin_asks_until_end_sample :
    let s := sampleSearch.performAll [.step, .flip 2]
    let run := s.solveWithin 9 (Counted.mk (Limit.script [false, true]) 0)
    s.EndsAt (Limit.script [false, true]) 1 ∧ (s.stepMany 1).2.isSolved = true ∧
      answer (Limit.script [false, true]) 1 = true ∧
      run.verdict = .satisfiable (s.stepMany 1).2.state.assignment ∧
      run.condition.asked = 1 ∧ (s.stepMany 1).2.counters.steps = 2 := by
  intro s run
  have started := reachable_performAll (A := .unlimited) [.step, .flip 2] (by decide)
  have ends : s.EndsAt (Limit.script [false, true]) 1 := ⟨by decide, by decide, by decide⟩
  have solved : (s.stepMany 1).2.isSolved = true := by decide
  obtain ⟨-, steps, verdict, -, -, same, -, asked, -⟩ :=
    (solveWithin_asks_until_end (s := s) sampleProblem_built started).2.1
      (Limit.script [false, true]) 1 9 ends (by decide)
  refine ⟨ends, solved, rfl, ?_, ?_, ?_⟩
  · exact same.trans ((verdict _).mpr ⟨solved, rfl⟩)
  · rw [asked, if_pos solved]
  · rw [steps]
    decide

end Search

end CardinalitySearch
