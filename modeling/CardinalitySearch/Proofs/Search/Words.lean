/-
CardinalitySearch.Proofs.Search.Words — searches do not need more than 32 bits.

Weights, numbers of true literals, gains and improvements may be kept without limits or
in words of 32 bits.  As long as a problem has fewer than 2147483648 constraints and
each of them fewer literals, this makes no difference: to keep the numbers in words is a
simulation (`narrowing`), so a search in words runs as the search does, whatever is done
with it, and the searches that are reached in words are those that are reached
(`reachable_inWords_iff`).  What has been proved of searches without limits is then true
of searches in words.

Saturation would hide a wrong number, and a cut one would still be a number, so equal
states would not be enough.  `words_suffice` says of each number on the way that it is
the plain one.
-/
import CardinalitySearch.Random.Script
import CardinalitySearch.Proofs.Problem.Occurrences
import CardinalitySearch.Proofs.Satisfaction.Words
import CardinalitySearch.Proofs.Search.Simulation

namespace CardinalitySearch

variable {P : Problem}

/-- Keeping the numbers in words changes no exact state. -/
def Problem.WellFormed.narrowing (hP : P.WellFormed) (small : P.FitsWords) :
    Simulation P P.inWords where
  assignment := id
  literal := id
  state := id
  Covers s := s.Exact P
  wellFormed := hP
  proposition_literal _ := rfl
  constraint? i := by simp [Problem.constraint?, Problem.inWords, Problem.ofConstraints]
  assignment_state _ := rfl
  violated_state _ := rfl
  improvement_state _ := rfl
  covers_flip exact hp := exact.flip hP hp
  flip_state exact hp := exact.flip_inWords hP small hp
  gain_state exact hp := exact.gain_inWords hP small hp

theorem Verdict.map_id (verdict : Verdict) : verdict.map id = verdict := by
  cases verdict <;> rfl

namespace Search

variable {σ : Type} {s : Search σ}

/-- The same search with its numbers in words. -/
def inWords (s : Search σ) : Search σ :=
  { s with problem := s.problem.inWords }

theorem ofAssignment_inWords (hP : P.WellFormed) (small : P.FitsWords) (settings : Settings)
    (a : Assignment) (source : σ) :
    ofAssignment P.inWords settings a source = (ofAssignment P settings a source).inWords := by
  rw [ofAssignment, Satisfaction.ofAssignment_inWords hP small]
  rfl

/-- A search starts in words as it does without limits. -/
theorem start?_inWords [RandomSource σ] (hP : P.WellFormed) (small : P.FitsWords)
    (settings : Settings) (initial : InitialAssignment) (source : σ) :
    start? P.inWords settings initial source
      = (start? P settings initial source).map inWords := by
  unfold start?
  rw [Option.map_map]
  exact Option.map_congr fun ⟨a, source⟩ _ => ofAssignment_inWords hP small settings a source

namespace Sound

theorem applies (h : s.Sound P) (small : P.FitsWords) :
    (h.wellFormed.narrowing small).Applies s :=
  ⟨h.problem, h.exact⟩

theorem search_narrowing (h : s.Sound P) (small : P.FitsWords) :
    (h.wellFormed.narrowing small).search s = s.inWords := by
  obtain ⟨rfl, _, _⟩ := h
  rfl

theorem flip_inWords (h : s.Sound P) (small : P.FitsWords) {p : Nat}
    (hp : p < P.propositionCount) : s.inWords.flip p = (s.flip p).inWords := by
  rw [← h.search_narrowing small, ← (h.flip hp).search_narrowing small]
  exact Simulation.flip_search (h.applies small) hp

theorem gain_inWords (h : s.Sound P) (small : P.FitsWords) {p : Nat}
    (hp : p < P.propositionCount) : s.inWords.gain p = s.gain p := by
  rw [← h.search_narrowing small]
  exact Simulation.gain_search (h.applies small) hp

variable [InRangeSource σ]

/-- A call of solve in words returns what it returns without limits. -/
theorem solveWithin_inWords {τ : Type} [StopCondition τ] (h : s.Sound P) (small : P.FitsWords)
    (rounds : Nat) (condition : τ) :
    let run := s.solveWithin rounds condition
    s.inWords.solveWithin rounds condition
      = ⟨run.verdict, run.search.inWords, run.condition⟩ := by
  intro run
  have still : run.search.Sound P :=
    solveWithin_induction (motive := fun t => t.Sound P) (fun _ ht => ht.step) rounds condition h
  rw [← h.search_narrowing small, Simulation.solveWithin_search rounds condition (h.applies small),
    Simulation.run, ← still.search_narrowing small]
  exact congrArg (Run.mk · _ _) run.verdict.map_id

/-- Steps in words lead where they lead without limits and answer the same. -/
theorem stepMany_inWords (h : s.Sound P) (small : P.FitsWords) (n : Nat) :
    s.inWords.stepMany n = ((s.stepMany n).1, (s.stepMany n).2.inWords) := by
  have still : ∀ n, ∀ {s : Search σ}, s.Sound P → (s.stepMany n).2.Sound P := by
    intro n
    induction n with
    | zero => exact fun h => h
    | succ n ih => exact fun h => ih h.step
  rw [← h.search_narrowing small, Simulation.stepMany_search n (h.applies small),
    ← (still n h).search_narrowing small]

/-- Whatever is done with a search, done in words it leads to the same. -/
theorem performAll_inWords (h : s.Sound P) (small : P.FitsWords) {actions : List Action}
    (valid : ∀ action ∈ actions, action.Valid P) :
    s.inWords.performAll actions = (s.performAll actions).inWords := by
  rw [← h.search_narrowing small, ← (h.performAll valid).search_narrowing small]
  exact (Simulation.performAll_search (h.applies small) valid).1

end Sound

/-- The searches that runs in words pass through are those that runs pass through. -/
theorem reachable_inWords_iff [InRangeSource σ] (hP : P.WellFormed) (small : P.FitsWords) :
    s.Reachable P.inWords ↔ ∃ t : Search σ, t.Reachable P ∧ t.inWords = s := by
  constructor
  · rintro ⟨settings, initial, source, start, actions, started, valid, rfl⟩
    rw [start?_inWords hP small, Option.map_eq_some_iff] at started
    obtain ⟨plain, first, rfl⟩ := started
    exact ⟨_, ⟨settings, initial, source, plain, actions, first, valid, rfl⟩,
      ((sound_start hP first).performAll_inWords small valid).symm⟩
  · rintro ⟨t, ⟨settings, initial, source, start, actions, started, valid, rfl⟩, rfl⟩
    refine ⟨settings, initial, source, start.inWords, actions, ?_, valid,
      (sound_start hP started).performAll_inWords small valid⟩
    rw [start?_inWords hP small, started, Option.map_some]

end Search

/-- Words of 32 bits give the same numbers, whatever signs and repetitions there are.
While the weighted lists are filled no weight is larger than its constraint has
literals.  The same operations build the same problem, and every run leads to the same
search: the changed counts stay within their constraints, and gains and improvements
stay within the number of entries of a list.  The maximum that a clause gets, or a
written constraint without a range, is the number of its literals. -/
theorem Problem.words_suffice {σ : Type} [InRangeSource σ] {P : Problem} (hP : P.Built)
    (small : P.FitsWords) {s : Search σ} (hs : s.Reachable P) :
    (P.occurrences = Occurrences.index P.propositionCount P.constraints.toList .words ∧
      ∀ cs, P.Recorded cs →
        Occurrences.index P.propositionCount cs .words = Occurrences.index P.propositionCount cs ∧
        ∀ p, ∀ o ∈ ((Occurrences.index P.propositionCount cs).getD p {}).weighted.toList,
          Word.Fits o.weight ∧
          ∃ c, P.constraint? o.constraint = some c ∧ o.weight.natAbs ≤ c.literals.length) ∧
    (P.inWords.Built .words ∧ s.inWords.Reachable P.inWords ∧
      ∀ p < P.propositionCount, s.state.ExactInWords P p) ∧
    (∀ (d : Draft) (literals : List Literal), literals.length < 2147483648 →
      d.addClause literals .words = d.addClause literals ∧
      ∀ id d', d.addClause literals .words = (.ok id, d') →
        d'.constraints[id]? = some ⟨id, literals, 1, literals.length⟩) ∧
    (∀ (d : Draft) (text : List Char) (e : Expression), Expression.parse text = .ok e →
      e.literals.length < 2147483648 →
      d.parseExpression text .words = d.parseExpression text ∧
      ∀ id d', e.range = none → d.parseExpression text .words = (.ok id, d') →
        ∃ literals, literals.length = e.literals.length ∧
          d'.constraints[id]? = some ⟨id, literals, 1, literals.length⟩) := by
  have wellFormed := hP.wellFormed
  refine ⟨⟨?_, fun cs recorded => wellFormed.recorded_exact small recorded _⟩, ⟨hP.inWords small,
    ?_, ?_⟩, ?_, ?_⟩
  · exact (wellFormed.occurrences_inWords small).symm
  · exact (Search.reachable_inWords_iff wellFormed small).mpr ⟨s, hs, rfl⟩
  · exact fun p hp => (hs.sound wellFormed).exact.exactInWords wellFormed small hp
  · intro d literals short
    rw [Draft.addClause_words short]
    exact ⟨rfl, fun id d' added => Draft.getElem?_of_addConstraint added⟩
  · intro d text e read short
    have same : d.parseExpression text .words = d.parseExpression text :=
      d.parseExpression_words fun e' read' => Except.ok.inj (read.symm.trans read') ▸ short
    rw [same]
    refine ⟨rfl, fun id d' noRange added => ?_⟩
    obtain ⟨literals, length, stands⟩ := Draft.exists_of_parseExpression read added
    rw [Expression.bounds, noRange, Option.getD_none, Arithmetic.unsigned_unlimited,
      ← length] at stands
    exact ⟨literals, length, stands⟩

/-- A search that makes a random step on weights of both signs. -/
def clashingSearch : Search Script :=
  (Search.ofAssignment (Problem.clashingProblem .unlimited) ⟨30, true⟩ ⟨#[true, false]⟩
    ⟨[0, 29, 1], [], []⟩).performAll [.step]

theorem Problem.words_suffice_sample :
    (clashingProblem .unlimited).FitsWords ∧
      clashingSearch.inWords.Reachable (clashingProblem .unlimited).inWords ∧
      ((clashingProblem .unlimited).occurrencesOf 0).weighted.toList = [⟨1, 2⟩, ⟨2, -2⟩] ∧
      clashingSearch.state.gainOf clashingProblem false [⟨1, 2⟩] = 1 ∧
      clashingSearch.inWords.gain 0 = 0 ∧
      (clashingSearch.inWords.flip 0).state.counts = #[3, 2, 3] ∧
      ∃ d, ({} : Draft).parseExpression "a|!b|a".toList .words = (.ok 0, d) ∧
        ∃ literals, literals.length = 3 ∧ d.constraints[0]? = some ⟨0, literals, 1, 3⟩ := by
  have small := clashingProblem_fitsWords .unlimited
  have reached : clashingSearch.Reachable (clashingProblem .unlimited) :=
    ⟨⟨30, true⟩, .given #[true, false], ⟨[0, 29, 1], [], []⟩, _, [.step], rfl, by decide, rfl⟩
  have weighted : ((clashingProblem .unlimited).occurrencesOf 0).weighted.toList
      = [⟨1, 2⟩, ⟨2, -2⟩] := by decide
  obtain ⟨-, ⟨-, same, exact⟩, -, parsed⟩ :=
    words_suffice (clashingProblem_built .unlimited) small reached
  have here := exact 0 (by decide)
  have value : clashingSearch.state.assignment.value 0 = true := by decide
  have first : [⟨1, 2⟩] <+: ((clashingProblem .unlimited).occurrencesOf 0).weighted.toList :=
    ⟨[⟨2, -2⟩], weighted.symm⟩
  have part := (here.sums _ first).1
  rw [value] at part
  obtain ⟨read, default⟩ := parsed {} "a|!b|a".toList
    ⟨none, [⟨"a", true⟩, ⟨"b", false⟩, ⟨"a", true⟩]⟩ (by decide) (by decide)
  have added : (({} : Draft).parseExpression "a|!b|a".toList).1 = .ok 0 := by decide
  obtain ⟨literals, length, stands⟩ := default 0 _ rfl (read.trans (Prod.ext added rfl))
  refine ⟨small, same, weighted, part.trans (by decide), here.gain.1.trans (by decide), ?_,
    _, read.trans (Prod.ext added rfl), literals, length, ?_⟩
  · exact (congrArg Satisfaction.counts here.flip).trans (by decide)
  · rw [stands, length]
    rfl

end CardinalitySearch
