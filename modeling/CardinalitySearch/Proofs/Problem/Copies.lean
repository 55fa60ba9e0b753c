/-
CardinalitySearch.Proofs.Problem.Copies — one constraint that repeats one literal.

A constraint may repeat a literal as often as it likes, and the weight of its proposition
is then the number of copies.  The problems here have one proposition and one such
constraint.  What their tables hold and how many literals are true is known for every
number of copies, without a look at the copies one by one, so it is also known for more
copies than a word can count: there the weight that is kept is not the weight.
-/
import CardinalitySearch.Proofs.Problem.Polarity

namespace CardinalitySearch

/-- Copies of one literal over one proposition, and how many of them may be true. -/
structure Copies where
  /-- The number of copies. -/
  number : Nat
  /-- Whether the literal is positive. -/
  positive : Bool
  /-- The least number of true copies. -/
  atLeast : Nat
  /-- The greatest number of true copies. -/
  atMost : Nat
  number_pos : 0 < number
  ordered : atLeast ≤ atMost

namespace Copies

variable (C : Copies)

/-- The literal that is repeated. -/
def literal : Literal :=
  ⟨0, C.positive⟩

/-- The constraint on the copies. -/
def constraint : Constraint :=
  ⟨0, List.replicate C.number C.literal, C.atLeast, C.atMost⟩

@[simp] theorem length_literals : C.constraint.literals.length = C.number :=
  List.length_replicate

theorem eq_literal_of_mem {l : Literal} (h : l ∈ C.constraint.literals) : l = C.literal :=
  (List.mem_replicate.mp h).2

theorem getElem?_literals {index : Nat} (h : index < C.number) :
    C.constraint.literals[index]? = some C.literal :=
  List.getElem?_replicate_of_lt h

/-- The operations that build the problem. -/
def steps : List Draft.Step :=
  [.intern "a", .addConstraint C.constraint.literals C.atLeast C.atMost]

/-- The problem with the constraint, in words. -/
def problem : Problem :=
  (Draft.ofSteps C.steps .words).build .words

theorem built : C.problem.Built .words :=
  .ofSteps C.steps

theorem problem_eq :
    C.problem = .ofConstraints (({} : Draft).intern "a").2.names #[C.constraint] .words := by
  have nonempty : C.constraint.literals.isEmpty = false := by
    rw [constraint, List.isEmpty_replicate]
    simpa using Nat.ne_of_gt C.number_pos
  have known : (C.constraint.literals.find? fun l =>
      (({} : Draft).intern "a").2.names.size ≤ l.proposition) = none := by
    rw [List.find?_eq_none]
    intro l hl
    rw [C.eq_literal_of_mem hl]
    show ¬ decide ((({} : Draft).intern "a").2.names.size ≤ 0) = true
    decide
  have accepted : (({} : Draft).intern "a").2.objection? C.constraint.literals C.atLeast C.atMost
      = none := by
    rw [Draft.objection?, nonempty, known, if_neg Bool.false_ne_true,
      if_neg (Nat.not_lt.mpr C.ordered), Option.map_none]
  have added : Draft.ofSteps C.steps .words
      = (({} : Draft).intern "a").2.push C.constraint.literals C.atLeast C.atMost := by
    show ((({} : Draft).intern "a").2.addConstraint C.constraint.literals C.atLeast C.atMost).2 = _
    rw [Draft.addConstraint, accepted]
  rw [problem, added]
  rfl

theorem toList_constraints : C.problem.constraints.toList = [C.constraint] := by
  rw [problem_eq]
  rfl

@[simp] theorem propositionCount_problem : C.problem.propositionCount = 1 := by
  rw [problem_eq]
  rfl

@[simp] theorem constraintCount_problem : C.problem.constraintCount = 1 := by
  rw [problem_eq]
  rfl

@[simp] theorem arithmetic_problem : C.problem.arithmetic = .words := rfl

@[simp] theorem constraint?_problem : C.problem.constraint? 0 = some C.constraint := by
  rw [problem_eq]
  rfl

@[simp] theorem accepts_problem (count : Nat) :
    C.problem.accepts 0 count = C.constraint.accepts count := by
  rw [Problem.accepts, constraint?_problem]

/-- All copies are true or none is. -/
theorem countTrue_literals (value : Bool) :
    (⟨#[value]⟩ : Assignment).countTrue C.constraint.literals
      = if value = C.positive then C.number else 0 := by
  rw [Assignment.countTrue, constraint, List.countP_replicate]
  exact ite_congr (by simp [Assignment.holds, literal, Literal.evaluate, Assignment.value,
    Assignment.value?]) (fun _ => rfl) fun _ => rfl

theorem satisfiedBy_constraint (value : Bool) :
    C.constraint.satisfiedBy ⟨#[value]⟩
      = C.constraint.accepts (if value = C.positive then C.number else 0) := by
  rw [Constraint.satisfiedBy, countTrue_literals]

/-! ## The weight -/

/-- The weight of the proposition is the number of copies, with a sign. -/
theorem weight_constraint :
    C.constraint.weight 0 = if C.positive then (C.number : Int) else -C.number := by
  rw [Constraint.weight, weightIn, constraint, List.count_replicate, List.count_replicate, literal]
  cases C.positive <;> simp

/-- What is kept of the weight. -/
def keptWeight : Int :=
  Word.signed (if C.positive then C.number else -C.number)

/-- The table holds what is kept of the weight. -/
theorem weighted_problem :
    (C.problem.occurrencesOf 0).weighted.toList = Occurrences.entry 0 C.keptWeight := by
  have distinct : ([C.constraint].map (·.id)).Nodup := List.pairwise_singleton _ _
  rw [problem_eq]
  refine (Occurrences.weighted_index (by decide) distinct).trans ?_
  rw [Occurrences.entries_cons, weight_constraint]
  exact List.append_nil _

/-- The table has the entry that is looked up. -/
theorem getElem?_occurrences :
    C.problem.occurrences[0]? = some (C.problem.occurrencesOf 0) := by
  have inside : 0 < C.problem.occurrences.size := by
    rw [problem_eq]
    show 0 < (Occurrences.index _ _ _).size
    rw [Occurrences.size_index]
    decide
  rw [Problem.occurrencesOf, Array.getD_eq_getD_getElem?, Array.getElem?_eq_getElem inside]
  rfl

/-- As many copies as make the weight the least word there is.  The sign is then that of
the negated literal, and the negative of the weight is no word. -/
def least (atLeast atMost : Nat) (ordered : atLeast ≤ atMost := by decide) : Copies :=
  ⟨2147483648, true, atLeast, atMost, by decide, ordered⟩

theorem keptWeight_least {atLeast atMost : Nat} (ordered : atLeast ≤ atMost) :
    (least atLeast atMost ordered).keptWeight = -2147483648 := by
  show Word.signed 2147483648 = -2147483648
  decide

theorem keptWeight_least_ne_zero {atLeast atMost : Nat} (ordered : atLeast ≤ atMost) :
    (least atLeast atMost ordered).keptWeight ≠ 0 := by
  rw [keptWeight_least]
  decide

end Copies

end CardinalitySearch
