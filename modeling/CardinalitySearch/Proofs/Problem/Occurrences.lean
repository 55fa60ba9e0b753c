/-
CardinalitySearch.Proofs.Problem.Occurrences — the three lists of a proposition.

The table that comes with a problem is never compared with the constraints
again, and a search believes it.  `occurrences_exact` says what it may believe:
each list is strictly increasing, the first two hold exactly the constraints in
which the proposition has an occurrence of their sign, and the third holds
exactly the constraints in which the two kinds of occurrences differ in number,
with the difference as the weight.  An increasing list is determined by its
members, so nothing about the lists is left open.

The tables themselves are treated where they are filled: `ofSign_index` and
`weighted_index` say that the lists are filtered out of the list of all
constraints.  A filtered list inherits the order, and its members are read off
under their numbers.

The weights are kept in words, so they are the differences as long as no constraint has
more literals than a signed word can count.  With one more the word has the wrong sign
(`copies_weight_wraps`).
-/
import CardinalitySearch.Proofs.Problem.Copies
import CardinalitySearch.Proofs.Problem.Polarity

namespace CardinalitySearch.Problem

variable {P : Problem}

namespace Indexed

/-- What is filtered out of the constraints has increasing numbers. -/
theorem increasing_filter (h : P.Indexed) (p : Constraint → Bool) :
    ((P.constraints.toList.filter p).map (·.id)).Pairwise (· < ·) :=
  h.increasing.sublist (List.filter_sublist.map _)

theorem mem_containing_iff (h : P.Indexed) (l : Literal) (i : Nat) :
    i ∈ Occurrences.containing l P.constraints.toList ↔
      ∃ c, P.constraint? i = some c ∧ l ∈ c.literals := by
  simp only [Occurrences.containing, List.mem_map, List.mem_filter, List.contains_iff_mem,
    h.constraint?_eq_some_iff]
  constructor
  · rintro ⟨c, ⟨hc, inside⟩, same⟩
    exact ⟨c, ⟨hc, same⟩, inside⟩
  · rintro ⟨c, ⟨hc, same⟩, inside⟩
    exact ⟨c, ⟨hc, inside⟩, same⟩

theorem mem_entries_iff (h : P.Indexed) (A : Arithmetic) (p i : Nat) (w : Int) :
    ⟨i, w⟩ ∈ Occurrences.entries p P.constraints.toList A ↔
      ∃ c, P.constraint? i = some c ∧ w = A.signed (c.weight p) ∧ w ≠ 0 := by
  simp only [Occurrences.entries, List.mem_map, List.mem_filter, decide_eq_true_eq,
    WeightedOccurrence.mk.injEq, h.constraint?_eq_some_iff]
  constructor
  · rintro ⟨c, ⟨hc, nonzero⟩, same, rfl⟩
    exact ⟨c, ⟨hc, same⟩, rfl, nonzero⟩
  · rintro ⟨c, ⟨hc, same⟩, rfl, nonzero⟩
    exact ⟨c, ⟨hc, nonzero⟩, same, rfl⟩

/-- The list of one sign is increasing and holds the constraints of the literal. -/
theorem ofSign_exact (h : P.Indexed) {p : Nat} (hp : p < P.propositionCount) (sign : Bool) :
    ((P.occurrencesOf p).ofSign sign).toList.Pairwise (· < ·) ∧
      ∀ i, i ∈ ((P.occurrencesOf p).ofSign sign).toList ↔
        ∃ c, P.constraint? i = some c ∧ ⟨p, sign⟩ ∈ c.literals := by
  rw [h.ofSign_occurrencesOf hp]
  exact ⟨h.increasing_filter _, h.mem_containing_iff ⟨p, sign⟩⟩

/-- The weighted list is increasing and holds what is kept of the weights, other than
zero. -/
theorem weighted_exact (h : P.Indexed) {p : Nat} (hp : p < P.propositionCount) :
    ((P.occurrencesOf p).weighted.toList.map (·.constraint)).Pairwise (· < ·) ∧
      ∀ i w, ⟨i, w⟩ ∈ (P.occurrencesOf p).weighted.toList ↔
        ∃ c, P.constraint? i = some c ∧ w = P.arithmetic.signed (c.weight p) ∧ w ≠ 0 := by
  rw [h.weighted_eq_entries hp]
  refine ⟨?_, h.mem_entries_iff P.arithmetic p⟩
  rw [Occurrences.entries, List.map_map]
  exact h.increasing_filter _

end Indexed

/-- The lists of a proposition in a problem that has been built, whatever the number and
order of repeated and clashing literals in its constraints: the constraints with the
proposition, those with its negation, and those for which a word keeps a difference of
the numbers of the two other than zero.  That word is the difference itself as long as
each constraint has fewer literals than there are words of one sign. -/
theorem occurrences_exact (hP : P.Built .words) {p : Nat} (hp : p < P.propositionCount) :
    ∃ o, P.occurrences[p]? = some o ∧
      (o.positive.toList.Pairwise (· < ·) ∧
        ∀ i, i ∈ o.positive.toList ↔ ∃ c, P.constraint? i = some c ∧ ⟨p, true⟩ ∈ c.literals) ∧
      (o.negative.toList.Pairwise (· < ·) ∧
        ∀ i, i ∈ o.negative.toList ↔ ∃ c, P.constraint? i = some c ∧ ⟨p, false⟩ ∈ c.literals) ∧
      (o.weighted.toList.map (·.constraint)).Pairwise (· < ·) ∧
      (∀ i w, ⟨i, w⟩ ∈ o.weighted.toList ↔
        ∃ c, P.constraint? i = some c ∧
          w = Word.signed ((c.literals.count ⟨p, true⟩ : Int) - c.literals.count ⟨p, false⟩) ∧
          w ≠ 0) ∧
      ((∀ c ∈ P.constraints.toList, c.literals.length < 2147483648) →
        ∀ i w, ⟨i, w⟩ ∈ o.weighted.toList ↔
          ∃ c, P.constraint? i = some c ∧
            w = (c.literals.count ⟨p, true⟩ : Int) - c.literals.count ⟨p, false⟩ ∧ w ≠ 0) := by
  have indexed := hP.indexed
  obtain ⟨increasing, stored⟩ := indexed.weighted_exact hp
  rw [hP.arithmetic_eq] at stored
  refine ⟨P.occurrencesOf p, indexed.getElem?_occurrences hp, indexed.ofSign_exact hp true,
    indexed.ofSign_exact hp false, increasing, stored, fun short i w => ?_⟩
  have kept : ∀ c, P.constraint? i = some c → Word.signed (c.weight p) = c.weight p := by
    intro c found
    have length := short c (indexed.constraint?_eq_some_iff.mp found).1
    exact Word.signed_eq
      (Word.fits_of_natAbs_lt (Nat.lt_of_le_of_lt (c.natAbs_weight_le p) length))
  rw [stored]
  refine exists_congr fun c => and_congr_right fun found => ?_
  rw [Arithmetic.signed, kept c found]
  rfl

/-- Three constraints in which the occurrences of `a` cancel out, return, and lead to a
negative weight; `b` stands between them, and the last text is refused. -/
def clashingProblem (A : Arithmetic := .words) : Problem :=
  (Draft.ofSteps [.parse "a | b | !a | a | !a", .parse "[0,3] !a | b | a | a | !b | a",
    .addConstraint [⟨1, true⟩, ⟨0, false⟩, ⟨1, false⟩, ⟨0, false⟩] 1 2, .parse "[2,1] a"]
    A).build A

theorem clashingProblem_built (A : Arithmetic) : (clashingProblem A).Built A :=
  .ofSteps _

theorem clashingProblem_fitsWords (A : Arithmetic) : (clashingProblem A).FitsWords := by
  cases A <;> exact ⟨by decide, by decide⟩

theorem occurrences_exact_sample :
    0 < clashingProblem.propositionCount ∧
      (clashingProblem.occurrencesOf 0).weighted.toList = [⟨1, 2⟩, ⟨2, -2⟩] ∧
      ∃ o, clashingProblem.occurrences[0]? = some o ∧ 2 ∉ o.positive.toList ∧
        2 ∈ o.negative.toList ∧ (∀ w, ⟨0, w⟩ ∉ o.weighted.toList) ∧
        ⟨2, -2⟩ ∈ o.weighted.toList := by
  have inside : 0 < clashingProblem.propositionCount := by decide
  obtain ⟨o, found, ⟨-, positive⟩, ⟨-, negative⟩, -, -, exact⟩ :=
    occurrences_exact (clashingProblem_built .words) inside
  have first : clashingProblem.constraint? 0
      = some ⟨0, [⟨0, true⟩, ⟨1, true⟩, ⟨0, false⟩, ⟨0, true⟩, ⟨0, false⟩], 1, 5⟩ := by decide
  have last : clashingProblem.constraint? 2
      = some ⟨2, [⟨1, true⟩, ⟨0, false⟩, ⟨1, false⟩, ⟨0, false⟩], 1, 2⟩ := by decide
  have weighted := exact (clashingProblem_fitsWords .words).short
  refine ⟨inside, by decide, o, found, ?_, ?_, ?_, ?_⟩
  · rw [positive, last]
    simp
  · exact (negative 2).mpr ⟨_, last, by decide⟩
  · intro w
    rw [weighted, first]
    simp
  · exact (weighted 2 (-2)).mpr ⟨_, last, by decide, by decide⟩

/-- Of 2147483648 copies of a proposition the weight that words keep has the wrong sign. -/
theorem copies_weight_wraps :
    let C := Copies.least 1 2147483648
    C.problem.Built .words ∧ C.problem.constraint? 0 = some C.constraint ∧
      (C.constraint.literals.count ⟨0, true⟩ : Int) - C.constraint.literals.count ⟨0, false⟩
        = 2147483648 ∧
      (C.problem.occurrencesOf 0).weighted.toList = [⟨0, -2147483648⟩] := by
  intro C
  refine ⟨C.built, C.constraint?_problem, C.weight_constraint, ?_⟩
  rw [C.weighted_problem, Copies.keptWeight_least]
  rfl

end CardinalitySearch.Problem
