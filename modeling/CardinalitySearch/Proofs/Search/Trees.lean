/-
CardinalitySearch.Proofs.Search.Trees — stop conditions that are combined.

A question to a tree is a question to each of its leaves, also to those that come
after a leaf that says yes.  So every leaf is where it would be if it alone had been
asked so often (`after_eq_map`), and the tree says yes exactly if some leaf does
(`answer_eq_true_iff`).  Nothing is asked of the leaves for this: they may change
with every question, and they may be of different kinds, which is a tree over a sum
of types.  A part of a tree that is optional is either the part itself or `absent`.

Budgets in a tree therefore run down together, and the smallest one decides.  A
call of solve sees of its condition nothing but the answers (`solveWithin_congr`), so
with such a tree it does what it does with the smallest budget alone.
-/
import CardinalitySearch.Proofs.Search.Asking

namespace CardinalitySearch

open StopCondition (after answer)

/-! ## Conditions of several kinds -/

/-- A condition of one of several kinds, which it remains. -/
instance {ι : Type} {T : ι → Type} [∀ i, StopCondition (T i)] : StopCondition (Sigma T) where
  query condition :=
    let (stop, next) := StopCondition.query condition.2
    (stop, ⟨condition.1, next⟩)

section

variable {ι : Type} {T : ι → Type} [∀ i, StopCondition (T i)]

theorem StopCondition.after_sigma (condition : Sigma T) (k : Nat) :
    after condition k = ⟨condition.1, after condition.2 k⟩ := by
  obtain ⟨i, condition⟩ := condition
  induction k generalizing condition with
  | zero => rfl
  | succ k ih => exact ih (StopCondition.query condition).2

theorem StopCondition.answer_sigma (condition : Sigma T) (k : Nat) :
    answer condition k = answer condition.2 k := by
  rw [answer, StopCondition.after_sigma]
  rfl

end

/-! ## The leaves of a tree -/

namespace StopTree

variable {τ : Type}

/-- The conditions that are there, from left to right. -/
def leaves : StopTree τ → List τ
  | .leaf condition => [condition]
  | .absent => []
  | .both left right => left.leaves ++ right.leaves

variable [StopCondition τ]

/-- After `k` questions to a tree each of its leaves has answered `k` questions. -/
theorem after_eq_map (t : StopTree τ) (k : Nat) : after t k = t.map fun c => after c k := by
  induction t with
  | leaf condition => rw [after_leaf, map]
  | absent => rw [after_absent, map]
  | both left right ihl ihr => rw [after_both, map, ihl, ihr]

/-- A tree says yes exactly if one of its leaves does. -/
theorem answer_eq_true_iff (t : StopTree τ) (k : Nat) :
    answer t k = true ↔ ∃ c ∈ t.leaves, answer c k = true := by
  induction t with
  | leaf condition => simp [answer_leaf, leaves]
  | absent => simp [answer_absent, leaves]
  | both left right ihl ihr =>
    rw [answer_both, Bool.or_eq_true, ihl, ihr]
    simp [leaves, or_and_right, exists_or]

end StopTree

/-! ## Budgets in a tree -/

theorem Limit.answer_never (k : Nat) : answer Limit.never k = false := by
  have after : StopCondition.after Limit.never k = never := by
    induction k with
    | zero => rfl
    | succ k ih => exact ih
  rw [answer, after]
  rfl

namespace StopTree

/-- Each leaf never stops or is a budget of steps. -/
def OfBudgets (t : StopTree Limit) : Prop :=
  ∀ c ∈ t.leaves, c = .never ∨ ∃ n, c = .steps n

/-- Some budget in the tree is `n`, and none is smaller. -/
def SmallestBudget (t : StopTree Limit) (n : Nat) : Prop :=
  .steps n ∈ t.leaves ∧ ∀ m, .steps m ∈ t.leaves → n ≤ m

variable {t : StopTree Limit}

/-- The tree says yes once one of its budgets is used up. -/
theorem OfBudgets.answer_eq_true_iff (h : t.OfBudgets) (k : Nat) :
    answer t k = true ↔ ∃ n ≤ k, .steps n ∈ t.leaves := by
  rw [StopTree.answer_eq_true_iff]
  constructor
  · rintro ⟨c, hc, yes⟩
    rcases h c hc with rfl | ⟨n, rfl⟩
    · rw [Limit.answer_never] at yes
      exact absurd yes Bool.false_ne_true
    · rw [Limit.answer_steps, decide_eq_true_eq] at yes
      exact ⟨n, yes, hc⟩
  · rintro ⟨n, le, hn⟩
    exact ⟨.steps n, hn, by rw [Limit.answer_steps, decide_eq_true le]⟩

/-- The smallest budget gives the answers of the tree. -/
theorem OfBudgets.answer_eq_steps (h : t.OfBudgets) {n : Nat} (smallest : t.SmallestBudget n)
    (k : Nat) : answer t k = answer (Limit.steps n) k := by
  rw [Bool.eq_iff_iff, h.answer_eq_true_iff, Limit.answer_steps, decide_eq_true_eq]
  constructor
  · rintro ⟨m, le, hm⟩
    exact Nat.le_trans (smallest.2 m hm) le
  · exact fun le => ⟨n, le, smallest.1⟩

/-- Without a budget the tree never says yes. -/
theorem OfBudgets.answer_eq_never (h : t.OfBudgets) (none : ∀ n, .steps n ∉ t.leaves) (k : Nat) :
    answer t k = answer Limit.never k := by
  rw [Limit.answer_never, Bool.eq_false_iff, ne_eq, h.answer_eq_true_iff]
  rintro ⟨n, -, hn⟩
  exact none n hn

end StopTree

/-! ## Calls of solve -/

namespace Search

variable {σ τ υ : Type} [RandomSource σ] [StopCondition τ] [StopCondition υ]

/-- Conditions with the same answers lead a call of solve to the same end. -/
theorem solveWithin_congr (rounds : Nat) :
    ∀ {s : Search σ} {c : τ} {d : υ}, (∀ k, answer c k = answer d k) →
      (s.solveWithin rounds c).verdict = (s.solveWithin rounds d).verdict ∧
        (s.solveWithin rounds c).search = (s.solveWithin rounds d).search := by
  induction rounds with
  | zero => exact fun _ => ⟨rfl, rfl⟩
  | succ rounds ih =>
    intro s c d same
    cases solved : s.isSolved with
    | true => simp only [solveWithin, round_of_isSolved solved, and_self]
    | false =>
      cases answered : answer c 0 with
      | true =>
        have answered' : answer d 0 = true := (same 0).symm.trans answered
        simp only [solveWithin, round_of_answer solved answered,
          round_of_answer solved answered', and_self]
      | false =>
        have answered' : answer d 0 = false := (same 0).symm.trans answered
        simp only [solveWithin, round_of_admitted solved answered,
          round_of_admitted solved answered']
        exact ih fun k => same (k + 1)

end Search

/-- A tree of conditions of any kinds, which may change with every question, asks all of
its leaves every time: it says yes exactly if a leaf does that was asked as often on
its own, and its leaves are where they would be then.  A tree whose leaves are budgets of
steps and conditions that never stop says yes from the question on whose number,
counted from zero, is the smallest budget, and a call of solve with it ends with the
verdict and in the search of the call with that budget alone; without a budget it never
says yes. -/
theorem StopTree.every_leaf_asked :
    (∀ {ι : Type} {T : ι → Type} [∀ i, StopCondition (T i)] (t : StopTree (Sigma T)) (k : Nat),
      (answer t k = true ↔ ∃ c ∈ t.leaves, answer c.2 k = true) ∧
      after t k = t.map fun c => ⟨c.1, after c.2 k⟩) ∧
    (∀ t : StopTree Limit, t.OfBudgets →
      (∀ j k, j ≤ k → answer t j = true → answer t k = true) ∧
      (∀ n, t.SmallestBudget n →
        (∀ k, answer t k = true ↔ n ≤ k) ∧
        ∀ {σ : Type} [RandomSource σ] (s : Search σ) (rounds : Nat),
          (s.solveWithin rounds t).verdict = (s.solveWithin rounds (Limit.steps n)).verdict ∧
          (s.solveWithin rounds t).search = (s.solveWithin rounds (Limit.steps n)).search ∧
          (n < rounds → (s.solveWithin rounds t).verdict ≠ .unfinished)) ∧
      ((∀ n, .steps n ∉ t.leaves) →
        (∀ k, answer t k = false) ∧
        ∀ {σ : Type} [RandomSource σ] (s : Search σ) (rounds : Nat),
          (s.solveWithin rounds t).verdict = (s.solveWithin rounds Limit.never).verdict ∧
          (s.solveWithin rounds t).search = (s.solveWithin rounds Limit.never).search)) := by
  refine ⟨?_, ?_⟩
  · intro ι T _ t k
    constructor
    · simp only [t.answer_eq_true_iff, StopCondition.answer_sigma]
    · simp only [t.after_eq_map, StopCondition.after_sigma]
  · intro t budgets
    refine ⟨?_, ?_, ?_⟩
    · intro j k le
      rw [budgets.answer_eq_true_iff, budgets.answer_eq_true_iff]
      rintro ⟨n, small, hn⟩
      exact ⟨n, Nat.le_trans small le, hn⟩
    · intro n smallest
      have same := budgets.answer_eq_steps smallest
      refine ⟨fun k => by rw [same, Limit.answer_steps, decide_eq_true_eq], ?_⟩
      intro σ _ s rounds
      obtain ⟨verdict, search⟩ := s.solveWithin_congr rounds same
      refine ⟨verdict, search, fun enough => ?_⟩
      rw [verdict, (s.solveWithin_steps enough).2, Search.standing]
      split <;> simp
    · intro none
      have same := budgets.answer_eq_never none
      exact ⟨fun k => (same k).trans (Limit.answer_never k), fun s rounds =>
        s.solveWithin_congr rounds same⟩

/-- Two kinds of conditions, of which the second counts its questions. -/
def SampleKind : Bool → Type
  | false => Limit
  | true => Counted Limit

instance (kind : Bool) : StopCondition (SampleKind kind) :=
  match kind with
  | false => inferInstanceAs (StopCondition Limit)
  | true => inferInstanceAs (StopCondition (Counted Limit))

/-- A tree whose first leaf says yes at once, but not always. -/
def mixedTree : StopTree (Sigma SampleKind) :=
  .both (.both .absent (.leaf ⟨false, Limit.script [true, false]⟩))
    (.leaf ⟨true, Counted.mk (.steps 2) 0⟩)

/-- A tree with two budgets. -/
def budgetTree : StopTree Limit :=
  .both (.both (.leaf (.steps 3)) .absent) (.both (.leaf .never) (.leaf (.steps 1)))

theorem StopTree.every_leaf_asked_sample :
    answer mixedTree 0 = true ∧ answer mixedTree 1 = false ∧
      after mixedTree 3 = .both (.both .absent (.leaf ⟨false, Limit.script []⟩))
        (.leaf ⟨true, Counted.mk (.steps 0) 3⟩) ∧
      budgetTree.SmallestBudget 1 ∧ answer budgetTree 0 = false ∧ answer budgetTree 7 = true ∧
      ((Search.sampleSearch.performAll [.step, .flip 2]).solveWithin 9 budgetTree).verdict
        = .satisfiable ⟨#[false, false, true]⟩ := by
  obtain ⟨asked, counted⟩ := StopTree.every_leaf_asked
  have budgets : budgetTree.OfBudgets := by simp [OfBudgets, budgetTree, leaves]
  have smallest : budgetTree.SmallestBudget 1 := by simp [SmallestBudget, budgetTree, leaves]
  obtain ⟨-, least, -⟩ := counted budgetTree budgets
  obtain ⟨answers, calls⟩ := least 1 smallest
  refine ⟨(asked mixedTree 0).1.mpr (by decide), ?_, (asked mixedTree 3).2, smallest, ?_,
    (answers 7).mpr (by decide), ?_⟩
  · rw [Bool.eq_false_iff, ne_eq, (asked mixedTree 1).1]
    decide
  · rw [Bool.eq_false_iff, ne_eq, answers 0]
    decide
  · rw [(calls _ 9).1]
    decide +kernel

end CardinalitySearch
