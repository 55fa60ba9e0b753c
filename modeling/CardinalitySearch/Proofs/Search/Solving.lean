/-
CardinalitySearch.Proofs.Search.Solving — where a call of solve ends.

A call of solve looks at the search, asks the stop condition and steps, in
turns.  It ends after the first number of steps at which the search is solved
or the condition says yes (`EndsAt`), and `EndsAt.solveWithin_eq` says what it
leaves there.  The answers of the condition are numbered for that: what it says
to question `k` does not depend on the search.

A budget of steps says yes from its own number on.  So a call with a budget
makes that many steps, where steps of a solved search count but change nothing,
and its verdict is read off the search at the end (`solveWithin_steps`).  Hence
calls with several budgets, one after the other, are one call with their sum.
-/
import Mathlib.Data.Nat.Find
import CardinalitySearch.Proofs.Search.Soundness

namespace CardinalitySearch

/-! ## Answers of a stop condition -/

namespace StopCondition

variable {τ : Type} [StopCondition τ]

/-- The condition after a number of questions. -/
def after (condition : τ) : Nat → τ
  | 0 => condition
  | k + 1 => after (query condition).2 k

/-- The answer to question number `k`, counted from zero. -/
def answer (condition : τ) (k : Nat) : Bool :=
  (query (after condition k)).1

theorem after_succ (condition : τ) (k : Nat) :
    after condition (k + 1) = (query (after condition k)).2 := by
  induction k generalizing condition with
  | zero => rfl
  | succ k ih => exact ih (query condition).2

end StopCondition

namespace Limit

theorem after_steps (n k : Nat) : StopCondition.after (steps n) k = steps (n - k) := by
  induction k generalizing n with
  | zero => rfl
  | succ k ih =>
    cases n with
    | zero => exact (ih 0).trans (by simp)
    | succ n => exact (ih n).trans (by simp)

/-- A budget says yes once so many questions have been answered. -/
theorem answer_steps (n k : Nat) : StopCondition.answer (steps n) k = decide (n ≤ k) := by
  rw [StopCondition.answer, after_steps]
  cases left : n - k with
  | zero => simpa [StopCondition.query, query] using Nat.le_of_sub_eq_zero left
  | succ m =>
    have more : ¬ n ≤ k := by omega
    simp [StopCondition.query, query, more]

end Limit

namespace StopTree

variable {τ : Type} [StopCondition τ]

theorem after_leaf (condition : τ) (k : Nat) :
    StopCondition.after (leaf condition) k = leaf (StopCondition.after condition k) := by
  induction k generalizing condition with
  | zero => rfl
  | succ k ih => exact ih (StopCondition.query condition).2

theorem after_absent (k : Nat) : StopCondition.after (absent : StopTree τ) k = absent := by
  induction k with
  | zero => rfl
  | succ k ih => exact ih

/-- Both parts of a tree hear every question. -/
theorem after_both (left right : StopTree τ) (k : Nat) :
    StopCondition.after (both left right) k
      = both (StopCondition.after left k) (StopCondition.after right k) := by
  induction k generalizing left right with
  | zero => rfl
  | succ k ih => exact ih (StopCondition.query left).2 (StopCondition.query right).2

theorem answer_leaf (condition : τ) (k : Nat) :
    StopCondition.answer (leaf condition) k = StopCondition.answer condition k := by
  rw [StopCondition.answer, after_leaf]
  rfl

/-- A condition that is not there never says yes. -/
theorem answer_absent (k : Nat) : StopCondition.answer (absent : StopTree τ) k = false := by
  rw [StopCondition.answer, after_absent]
  rfl

/-- Two conditions together say yes when one of them does, each asked every time. -/
theorem answer_both (left right : StopTree τ) (k : Nat) :
    StopCondition.answer (both left right) k
      = (StopCondition.answer left k || StopCondition.answer right k) := by
  rw [StopCondition.answer, after_both]
  rfl

end StopTree

namespace Search

variable {σ τ : Type} [RandomSource σ] [StopCondition τ] {s : Search σ} {condition : τ} {k : Nat}

open StopCondition (after answer)

/-! ## The steps of a call -/

theorem stepMany_add (m n : Nat) (s : Search σ) :
    (s.stepMany (m + n)).2 = ((s.stepMany m).2.stepMany n).2 := by
  induction m generalizing s with
  | zero => rw [Nat.zero_add]; rfl
  | succ m ih =>
    rw [Nat.succ_add]
    exact ih s.step

/-- A call of solve ends after `k` steps: there the search is solved or the condition
says yes, and neither is the case before. -/
structure EndsAt (s : Search σ) (condition : τ) (k : Nat) : Prop where
  ends : (s.stepMany k).2.isSolved = true ∨ answer condition k = true
  unsolved : ∀ j < k, (s.stepMany j).2.isSolved = false
  admitted : ∀ j < k, answer condition j = false

theorem round_of_isSolved (solved : s.isSolved = true) (condition : τ) :
    s.round condition = ⟨.satisfiable s.state.assignment, s, condition⟩ := by
  rw [round, if_pos solved]

theorem round_of_answer (unsolved : s.isSolved = false) (yes : answer condition 0 = true) :
    s.round condition = ⟨.unknown, s, after condition 1⟩ := by
  have yes : (StopCondition.query condition).1 = true := yes
  simp only [round, unsolved, Bool.false_eq_true, if_false, yes, if_true]
  rfl

theorem round_of_admitted (unsolved : s.isSolved = false) (no : answer condition 0 = false) :
    s.round condition = ⟨.unfinished, s.step, after condition 1⟩ := by
  have no : (StopCondition.query condition).1 = false := no
  simp only [round, unsolved, Bool.false_eq_true, if_false, no]
  rfl

/-- Rounds in which nothing ends are steps. -/
theorem solveWithin_add (k rounds : Nat) :
    ∀ {s : Search σ} {condition : τ}, (∀ j < k, (s.stepMany j).2.isSolved = false) →
      (∀ j < k, answer condition j = false) →
      s.solveWithin (k + rounds) condition
        = (s.stepMany k).2.solveWithin rounds (after condition k) := by
  induction k with
  | zero => intro s condition _ _; rw [Nat.zero_add]; rfl
  | succ k ih =>
    intro s condition unsolved admitted
    have first : s.round condition = ⟨.unfinished, s.step, after condition 1⟩ :=
      round_of_admitted (unsolved 0 k.succ_pos) (admitted 0 k.succ_pos)
    have others := @ih s.step (after condition 1)
      (fun j hj => unsolved (j + 1) (Nat.succ_lt_succ hj))
      (fun j hj => admitted (j + 1) (Nat.succ_lt_succ hj))
    rw [Nat.succ_add, solveWithin, first]
    exact others

/-- What a call of solve leaves.  The condition is asked after each step but not
where the search is solved. -/
theorem EndsAt.solveWithin_eq (h : s.EndsAt condition k) {rounds : Nat} (enough : k < rounds) :
    s.solveWithin rounds condition =
      if (s.stepMany k).2.isSolved then
        ⟨.satisfiable (s.stepMany k).2.state.assignment, (s.stepMany k).2, after condition k⟩
      else ⟨.unknown, (s.stepMany k).2, after condition (k + 1)⟩ := by
  obtain ⟨rest, rfl⟩ : ∃ rest, rounds = k + (rest + 1) := ⟨rounds - k - 1, by omega⟩
  rw [solveWithin_add k _ h.unsolved h.admitted, solveWithin]
  cases solved : (s.stepMany k).2.isSolved with
  | true => rw [round_of_isSolved solved, if_pos rfl]
  | false =>
    have yes : answer (after condition k) 0 = true :=
      h.ends.resolve_left (by rw [solved]; exact Bool.false_ne_true)
    rw [round_of_answer solved yes, if_neg Bool.false_ne_true, StopCondition.after_succ condition]
    rfl

/-- Rounds that have come to a verdict have come to where the call ends. -/
theorem exists_endsAt_of_verdict (rounds : Nat) :
    ∀ {s : Search σ} {condition : τ}, (s.solveWithin rounds condition).verdict ≠ .unfinished →
      ∃ k < rounds, s.EndsAt condition k := by
  induction rounds with
  | zero => exact fun ended => absurd rfl ended
  | succ rounds ih =>
    intro s condition ended
    cases solved : s.isSolved with
    | true => exact ⟨0, rounds.succ_pos, .inl solved, by simp, by simp⟩
    | false =>
      cases answered : answer condition 0 with
      | true => exact ⟨0, rounds.succ_pos, .inr answered, by simp, by simp⟩
      | false =>
        rw [solveWithin, round_of_admitted solved answered] at ended
        obtain ⟨k, small, next⟩ := ih ended
        refine ⟨k + 1, Nat.succ_lt_succ small, next.ends, ?_, ?_⟩
        · rintro (_ | j) hj
          · exact solved
          · exact next.unsolved j (Nat.lt_of_succ_lt_succ hj)
        · rintro (_ | j) hj
          · exact answered
          · exact next.admitted j (Nat.lt_of_succ_lt_succ hj)

/-- A call ends at the latest where the search is solved or the condition says yes. -/
theorem exists_endsAt (s : Search σ) (condition : τ)
    (ends : (s.stepMany k).2.isSolved = true ∨ answer condition k = true) :
    ∃ j ≤ k, s.EndsAt condition j := by
  have some : ∃ j, (s.stepMany j).2.isSolved = true ∨ answer condition j = true := ⟨k, ends⟩
  have before : ∀ j < Nat.find some,
      ¬ ((s.stepMany j).2.isSolved = true ∨ answer condition j = true) := fun j hj =>
    Nat.find_min some hj
  refine ⟨Nat.find some, Nat.find_min' some ends, Nat.find_spec some, ?_, ?_⟩
  · exact fun j hj => Bool.eq_false_iff.mpr fun solved => before j hj (.inl solved)
  · exact fun j hj => Bool.eq_false_iff.mpr fun stopped => before j hj (.inr stopped)

/-! ## Budgets -/

/-- The verdict on a search that makes no more steps. -/
def standing (s : Search σ) : Verdict :=
  if s.isSolved then .satisfiable s.state.assignment else .unknown

/-- A call with a budget of steps makes these steps, as far as they change anything. -/
theorem solveWithin_steps (s : Search σ) {budget rounds : Nat} (enough : budget < rounds) :
    (s.solveWithin rounds (Limit.steps budget)).search = (s.stepMany budget).2 ∧
      (s.solveWithin rounds (Limit.steps budget)).verdict = (s.stepMany budget).2.standing := by
  have spent : answer (Limit.steps budget) budget = true := by simp [Limit.answer_steps]
  obtain ⟨k, small, ends⟩ := s.exists_endsAt (Limit.steps budget) (.inr spent)
  -- a call that ends before its budget is used up ends in a solved search
  have same : (s.stepMany budget).2 = (s.stepMany k).2 := by
    rcases ends.ends with solved | stopped
    · obtain ⟨rest, rfl⟩ := Nat.exists_eq_add_of_le small
      rw [stepMany_add, stepMany_of_isSolved solved]
    · rw [Limit.answer_steps, decide_eq_true_eq] at stopped
      rw [Nat.le_antisymm small stopped]
  rw [ends.solveWithin_eq (Nat.lt_of_le_of_lt small enough), same, standing]
  split <;> exact ⟨rfl, rfl⟩

/-- Calls of solve with budgets of steps, one after the other, and their verdicts. -/
def solveEach : List Nat → Search σ → List Verdict × Search σ
  | [], s => ([], s)
  | budget :: rest, s =>
    let run := s.solve (Limit.steps budget)
    let (verdicts, t) := solveEach rest run.search
    (run.verdict :: verdicts, t)

theorem solveEach_cons (budget : Nat) (rest : List Nat) (s : Search σ) :
    s.solveEach (budget :: rest)
      = ((s.solve (Limit.steps budget)).verdict ::
            ((s.solve (Limit.steps budget)).search.solveEach rest).1,
          ((s.solve (Limit.steps budget)).search.solveEach rest).2) :=
  rfl

/-- The steps of all budgets together. -/
def totalBudget (budgets : List Nat) : Nat :=
  budgets.foldr (· + ·) 0

theorem totalBudget_cons (budget : Nat) (rest : List Nat) :
    totalBudget (budget :: rest) = budget + totalBudget rest :=
  rfl

/-- The calls together make the steps of all budgets, and the last verdict is on the
search after them. -/
theorem solveEach_eq_stepMany {budgets : List Nat} :
    totalBudget budgets < ampleRounds → ∀ s : Search σ,
      (s.solveEach budgets).2 = (s.stepMany (totalBudget budgets)).2 ∧
      (budgets ≠ [] →
        (s.solveEach budgets).1.getLast? = some (s.stepMany (totalBudget budgets)).2.standing) := by
  induction budgets with
  | nil => exact fun _ s => ⟨rfl, fun nonempty => absurd rfl nonempty⟩
  | cons budget rest ih =>
    intro small s
    rw [totalBudget_cons] at small ⊢
    have fits : budget < ampleRounds := by omega
    obtain ⟨search, verdict⟩ := s.solveWithin_steps fits
    have first : (s.solve (Limit.steps budget)).search = (s.stepMany budget).2 := search
    obtain ⟨others, last⟩ := ih (by omega) (s.stepMany budget).2
    rw [solveEach_cons, first, stepMany_add]
    refine ⟨others, fun _ => ?_⟩
    cases rest with
    | nil => exact congrArg some verdict
    | cons next more =>
      have more := last (List.cons_ne_nil _ _)
      rw [solveEach_cons] at more ⊢
      rw [List.getLast?_cons_cons, more]

/-- Calls of solve with budgets of steps, which together are a word of 64 bits, end in
the state in which one call with the sum of the budgets ends, and the last of them
returns what that call returns; from every search and with every source, whatever
has been found in between. -/
theorem solveEach_eq_solve_sum (s : Search σ) {budgets : List Nat} (nonempty : budgets ≠ [])
    (small : totalBudget budgets < 18446744073709551616) :
    (s.solveEach budgets).2 = (s.solve (Limit.steps (totalBudget budgets))).search ∧
      (s.solveEach budgets).1.getLast?
        = some (s.solve (Limit.steps (totalBudget budgets))).verdict := by
  have small : totalBudget budgets < ampleRounds := small
  obtain ⟨state, last⟩ := solveEach_eq_stepMany small s
  obtain ⟨search, verdict⟩ := s.solveWithin_steps small
  exact ⟨state.trans search.symm, (last nonempty).trans (congrArg some verdict.symm)⟩

/-- The second call finds a solution with the last step of its budget. -/
theorem solveEach_eq_solve_sum_sample :
    let s := sampleSearch.performAll [.step, .flip 2]
    s.isSolved = false ∧ (s.solve (Limit.steps 1)).verdict = .satisfiable ⟨#[false, false, true]⟩ ∧
      (s.solveEach [0, 1, 0]).1.getLast? = some (s.solve (Limit.steps 1)).verdict ∧
      (s.solveEach [0, 1, 0]).2 = (s.solve (Limit.steps 1)).search := by
  intro s
  obtain ⟨state, last⟩ := solveEach_eq_solve_sum s (List.cons_ne_nil 0 [1, 0]) (by decide)
  exact ⟨by decide, by decide +kernel, last, state⟩

end Search

end CardinalitySearch
