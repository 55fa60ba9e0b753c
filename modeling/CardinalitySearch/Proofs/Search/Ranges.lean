/-
CardinalitySearch.Proofs.Search.Ranges — ranges that can and cannot be reached.

A constraint that asks for more true literals than it has is never satisfied, so
it is in the violated set of every state of every run, and no search of a problem
with such a constraint is ever solved.

The other direction needs literals over distinct propositions: then the literals
can be made true independently, and every number of true literals up to the length
of the list is the one of some assignment (`exists_countTrue_eq`).  Otherwise they
may clash, and the range of a constraint may be missed although it is reachable in
this sense.

The counts of a search are words, which have to fit the sizes of the problem; otherwise
a constraint that no assignment satisfies may count as satisfied
(`copies_solved_out_of_range`).
-/
import CardinalitySearch.Proofs.Search.Copies
import CardinalitySearch.Proofs.Search.Soundness

namespace CardinalitySearch

/-! ## Assignments with a given count -/

namespace Assignment

/-- A literal can be given any value, whatever the other propositions have. -/
theorem exists_holds_eq (a : Assignment) {l : Literal} (h : l.proposition < a.size)
    (wanted : Bool) :
    ∃ b : Assignment, b.size = a.size ∧ b.holds l = wanted ∧
      ∀ q, q ≠ l.proposition → b.value q = a.value q := by
  by_cases same : a.holds l = wanted
  · exact ⟨a, rfl, same, fun _ _ => rfl⟩
  · refine ⟨a.toggle l.proposition, a.size_toggle _, ?_, fun q other => ?_⟩
    · rw [a.holds_toggle h, if_pos rfl, Bool.eq_not_of_ne same, Bool.not_not]
    · rw [a.value_toggle h, if_neg (Ne.symm other)]

/-- Literals over distinct propositions can be true in any number. -/
theorem exists_countTrue_eq {n : Nat} {ls : List Literal} :
    (ls.map (·.proposition)).Nodup → (∀ l ∈ ls, l.proposition < n) →
      ∀ k ≤ ls.length, ∃ a : Assignment, a.size = n ∧ a.countTrue ls = k := by
  induction ls with
  | nil =>
    intro _ _ k small
    exact ⟨allFalse n, Array.size_replicate, (Nat.le_zero.mp small).symm⟩
  | cons l rest ih =>
    intro distinct inside k small
    rw [List.map_cons, List.nodup_cons] at distinct
    rw [List.forall_mem_cons] at inside
    rw [List.length_cons] at small
    -- the first literal is made true unless none is to be
    obtain ⟨a, size, count⟩ := ih distinct.2 inside.2 (k - 1) (by omega)
    obtain ⟨b, size', first, others⟩ := a.exists_holds_eq (size.symm ▸ inside.1) (decide (0 < k))
    have rest_eq : b.countTrue rest = a.countTrue rest := by
      refine countTrue_congr fun m hm => others _ fun same => distinct.1 ?_
      rw [← same]
      exact List.mem_map_of_mem hm
    refine ⟨b, size'.trans size, ?_⟩
    rw [countTrue_cons, first, rest_eq, count]
    rcases Nat.eq_zero_or_pos k with rfl | positive
    · rfl
    · simp [positive]
      omega

end Assignment

namespace Constraint

variable {c : Constraint}

/-- A constraint that asks for more literals than it has is violated everywhere. -/
theorem satisfiedBy_eq_false_of_not_isReachable (short : c.isReachable = false)
    (a : Assignment) : c.satisfiedBy a = false := by
  have few : a.countTrue c.literals ≤ c.literals.length := List.countP_le_length
  have more : ¬ c.atLeast ≤ c.literals.length := by simpa [isReachable] using short
  rw [c.satisfiedBy_eq_false_iff]
  omega

/-- A constraint over distinct propositions is satisfied somewhere if it has as many
literals as it asks for. -/
theorem Admissible.exists_satisfiedBy {n : Nat} (h : c.Admissible n) (long : c.isReachable = true)
    (distinct : (c.literals.map (·.proposition)).Nodup) :
    ∃ a : Assignment, a.size = n ∧ c.satisfiedBy a = true := by
  have enough : c.atLeast ≤ c.literals.length := by simpa [isReachable] using long
  obtain ⟨a, size, count⟩ := Assignment.exists_countTrue_eq distinct h.proposition_lt _ enough
  refine ⟨a, size, ?_⟩
  rw [c.satisfiedBy_iff, count]
  exact ⟨Nat.le_refl _, h.atLeast_le_atMost⟩

end Constraint

/-! ## Warnings -/

/-- The constraint that an event warns of. -/
def Event.unreachable? : Event → Option Nat
  | .unreachableRange constraint _ _ => some constraint
  | _ => none

namespace Problem

variable {P : Problem}

/-- The constraints that a problem is warned of. -/
theorem filterMap_warnings (P : Problem) :
    P.warnings.filterMap Event.unreachable?
      = (P.constraints.toList.filter (!·.isReachable)).map (·.id) := by
  have none : (if P.constraints.isEmpty then [Event.noConstraints] else []).filterMap
      Event.unreachable? = [] := by
    split <;> rfl
  rw [warnings, List.filterMap_append, none, List.append_nil, List.filterMap_map]
  exact congrFun List.filterMap_eq_map _

theorem unreachableRange_mem_warnings_iff (P : Problem) (i atLeast count : Nat) :
    .unreachableRange i atLeast count ∈ P.warnings ↔
      ∃ c ∈ P.constraints.toList, c.isReachable = false ∧
        i = c.id ∧ atLeast = c.atLeast ∧ count = c.literals.length := by
  have absent : Event.unreachableRange i atLeast count ∉
      if P.constraints.isEmpty then [Event.noConstraints] else [] := by
    split <;> simp
  rw [warnings, List.mem_append, or_iff_left absent, List.mem_map]
  constructor
  · rintro ⟨c, hc, same⟩
    obtain ⟨hc, short⟩ := List.mem_filter.mp hc
    obtain ⟨rfl, rfl, rfl⟩ := Event.unreachableRange.inj same
    exact ⟨c, hc, by simpa using short, rfl, rfl, rfl⟩
  · rintro ⟨c, hc, short, rfl, rfl, rfl⟩
    exact ⟨c, List.mem_filter.mpr ⟨hc, by simpa using short⟩, rfl⟩

end Problem

namespace Search

variable {σ : Type} [InRangeSource σ] {P : Problem} {s : Search σ}

/-- A constraint that no assignment satisfies keeps every search of its problem from
being solved. -/
theorem Reachable.isSolved_eq_false (hs : s.Reachable P) (hP : P.WellFormed) {c : Constraint}
    (hc : c ∈ P.constraints.toList) (never : ∀ a, c.satisfiedBy a = false) :
    c.id ∈ s.state.violated.toList ∧ s.isSolved = false := by
  have member := ((hs.sound hP).exact.tracks c hc).violated.mpr (never _)
  refine ⟨member, Bool.eq_false_iff.mpr fun solved => ?_⟩
  have empty : s.state.violated.toList = [] := (SwapSet.isEmpty_eq_true_iff _).mp solved
  simp [empty] at member

end Search

namespace Problem

/-- A constraint that asks for more literals than it has is satisfied by no assignment
and, if words fit the sizes of its problem, is violated in every state of every run in
words, so that no such run is ever solved or returns a solution.  A constraint that has
as many literals as it asks for, over distinct propositions, is satisfied by some
assignment of its problem.  The problem is warned of the constraints of the first kind,
of each once and in their order, and of no others. -/
theorem range_reachability {P : Problem} (hP : P.Built .words) :
    (∀ c ∈ P.constraints.toList, c.isReachable = false →
      (∀ a : Assignment, c.satisfiedBy a = false) ∧
      (P.FitsWords → ∀ {σ : Type} [InRangeSource σ] (s : Search σ), s.Reachable P →
        c.id ∈ s.state.violated.toList ∧ s.isSolved = false ∧ s.step.isSolved = false ∧
        ∀ {τ : Type} [StopCondition τ] (condition : τ) (rounds : Nat) (solution : Assignment),
          (s.solveWithin rounds condition).verdict ≠ .satisfiable solution)) ∧
    (∀ c ∈ P.constraints.toList, c.isReachable = true →
      (c.literals.map (·.proposition)).Nodup →
        ∃ a : Assignment, a.size = P.propositionCount ∧ c.satisfiedBy a = true) ∧
    (P.warnings.filterMap Event.unreachable?).Pairwise (· < ·) ∧
    (∀ i, i ∈ P.warnings.filterMap Event.unreachable? ↔
      ∃ c, P.constraint? i = some c ∧ c.isReachable = false) ∧
    (∀ i atLeast count, .unreachableRange i atLeast count ∈ P.warnings ↔
      ∃ c, P.constraint? i = some c ∧ c.isReachable = false ∧
        atLeast = c.atLeast ∧ count = c.literals.length) := by
  have indexed := hP.indexed
  refine ⟨?_, ?_, ?_, ?_, ?_⟩
  · intro c hc short
    have never := Constraint.satisfiedBy_eq_false_of_not_isReachable short
    refine ⟨never, fun small _ _ s hs => ?_⟩
    have wellFormed := hP.wellFormed_words small
    obtain ⟨member, unsolved⟩ := hs.isSolved_eq_false wellFormed hc never
    refine ⟨member, unsolved, (hs.step.isSolved_eq_false wellFormed hc never).2, ?_⟩
    intro τ _ condition rounds solution verdict
    have justified := Search.justified_solveWithin rounds s condition
    have after := hs.perform (.solve condition rounds) trivial
    simp only [Run.Justified, verdict] at justified
    have unsolved' : (s.solveWithin rounds condition).search.isSolved = false :=
      (after.isSolved_eq_false wellFormed hc never).2
    rw [unsolved'] at justified
    exact Bool.false_ne_true justified.1
  · exact fun c hc long distinct => (indexed.admissible c hc).exists_satisfiedBy long distinct
  · rw [filterMap_warnings]
    exact indexed.increasing.sublist (List.filter_sublist.map _)
  · intro i
    rw [filterMap_warnings]
    simp [indexed.constraint?_eq_some_iff, and_assoc, and_comm]
  · intro i atLeast count
    rw [unreachableRange_mem_warnings_iff]
    simp only [indexed.constraint?_eq_some_iff]
    constructor
    · rintro ⟨c, hc, short, rfl, counts⟩
      exact ⟨c, ⟨hc, rfl⟩, short, counts⟩
    · rintro ⟨c, ⟨hc, rfl⟩, short, counts⟩
      exact ⟨c, hc, short, rfl, counts⟩

/-- The outer two constraints ask for more literals than they have. -/
def shortProblem : Problem :=
  (Draft.ofSteps [.parse "[4,4] a | b | a", .parse "[2,2] !b | c | a", .parse "[2,9] c"]
    .words).build .words

/-- A search on it. -/
def shortSearch : Search Script :=
  Search.ofAssignment shortProblem {} ⟨#[true, false, true]⟩ ⟨[1, 99, 0, 10, 1], [], []⟩

theorem range_reachability_sample :
    shortProblem.warnings.filterMap Event.unreachable? = [0, 2] ∧
      0 ∈ (shortSearch.performAll [.step, .flip 1, .step]).state.violated.toList ∧
      (shortSearch.performAll [.step, .flip 1, .step]).isSolved = false ∧
      ∃ a : Assignment, a.size = 3 ∧
        Constraint.satisfiedBy ⟨1, [⟨1, false⟩, ⟨2, true⟩, ⟨0, true⟩], 2, 2⟩ a = true := by
  have built : shortProblem.Built .words := .ofSteps _
  have small : shortProblem.FitsWords := ⟨by decide, by decide⟩
  have reachable : (shortSearch.performAll [.step, .flip 1, .step]).Reachable shortProblem :=
    ⟨{}, .given #[true, false, true], ⟨[1, 99, 0, 10, 1], [], []⟩, shortSearch,
      [.step, .flip 1, .step], rfl, by decide, rfl⟩
  obtain ⟨unreachable, distinct, -⟩ := range_reachability built
  have violated := (unreachable ⟨0, [⟨0, true⟩, ⟨1, true⟩, ⟨0, true⟩], 4, 4⟩ (by decide)
    rfl).2 small _ reachable
  exact ⟨by decide, violated.1, violated.2.1, distinct _ (by decide) rfl (by decide)⟩

/-- Copies of a negated literal, of which one more has to be true than there are.  The
weight that words keep has the wrong sign. -/
def negatedCopies : Copies :=
  ⟨2147483649, false, 2147483650, 4294967295, by decide, by decide⟩

/-- In words a range that cannot be reached is reached where a count ends. -/
theorem copies_solved_out_of_range :
    let C := negatedCopies
    let s := (C.start false 0 (⟨[], [], []⟩ : Script)).flip 0
    C.constraint ∈ C.problem.constraints.toList ∧ C.constraint.isReachable = false ∧
      s.Reachable C.problem ∧ s.isSolved = true := by
  intro C s
  have here : C.InState s true _ _ :=
    (Copies.inState_start false 0 (⟨[], [], []⟩ : Script)).flip (by decide)
  refine ⟨?_, ?_, Copies.reachable_flip (Copies.reachable_start false 0 _), ?_⟩
  · rw [C.toList_constraints]
    exact List.mem_singleton_self _
  · rw [Constraint.isReachable, C.length_literals]
    decide
  · rw [here.isSolved]
    decide

end Problem

end CardinalitySearch
