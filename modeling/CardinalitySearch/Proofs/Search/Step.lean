/-
CardinalitySearch.Proofs.Search.Step — everything a step can be.

`step_cases` is the inversion of `Search.step`: a step of a solved search
changes nothing, and any other step is a random or a greedy move in a violated
constraint, with the draws that led to it.  The branches in which a draw picks
nothing are excluded here once and for all, by sources that stay in range and
by states that are exact.  Later proofs take the cases from here and read the
fields of the two moves off the `simp` lemmas; they do not unfold `step`.
-/
import CardinalitySearch.Search.Basic
import CardinalitySearch.Proofs.Satisfaction.Exact

namespace CardinalitySearch

/-! ## The literal of a greedy move -/

/-- The first literal of a list that no literal of the list surpasses. -/
def firstBest (gain : Literal → Int) (ls : List Literal) : Option Literal :=
  ls.find? fun l => ls.all fun other => gain other ≤ gain l

/-- Of the first two literals one can be left out: the first one if the second
surpasses it, else the second one. -/
theorem firstBest_cons_cons (gain : Literal → Int) (l m : Literal) (ls : List Literal) :
    firstBest gain (l :: m :: ls)
      = if gain l < gain m then firstBest gain (m :: ls) else firstBest gain (l :: ls) := by
  unfold firstBest
  split
  · next better =>
    have worse : ((l :: m :: ls).all fun other => gain other ≤ gain l) = false := by
      simp [Int.not_le.mpr better]
    have same : (fun k => (l :: m :: ls).all fun other => gain other ≤ gain k)
        = fun k => (m :: ls).all fun other => gain other ≤ gain k := by
      funext k
      by_cases best : gain m ≤ gain k
      · simp [best, Int.le_trans (Int.le_of_lt better) best]
      · simp [best]
    rw [List.find?_cons, worse, same]
  · next notBetter =>
    have le : gain m ≤ gain l := Int.not_lt.mp notBetter
    have same : (fun k => (l :: m :: ls).all fun other => gain other ≤ gain k)
        = fun k => (l :: ls).all fun other => gain other ≤ gain k := by
      funext k
      by_cases best : gain l ≤ gain k
      · simp [best, Int.le_trans le best]
      · simp [best]
    rw [same, List.find?_cons, List.find?_cons, List.find?_cons]
    cases first : (l :: ls).all fun other => gain other ≤ gain l with
    | true => rfl
    | false =>
      -- a literal that is best though the first one is not surpasses the first
      have second : ((l :: ls).all fun other => gain other ≤ gain m) = false := by
        rw [Bool.eq_false_iff]
        intro best
        simp only [List.all_cons, Bool.and_eq_true, decide_eq_true_eq, List.all_eq_true] at best
        have all : ((l :: ls).all fun other => gain other ≤ gain l) = true := by
          simpa using fun other h => Int.le_trans (best.2 other h) le
        simp [all] at first
      rw [second]

/-- The literal of a greedy move is the first best one, with its own gain. -/
theorem bestLiteral_eq (gain : Literal → Int) (ls : List Literal) :
    bestLiteral gain ls = (firstBest gain ls).map fun l => (l, gain l) := by
  cases ls with
  | nil => rfl
  | cons l rest =>
    induction rest generalizing l with
    | nil => simp [bestLiteral, firstBest]
    | cons m rest ih =>
      have skip : bestLiteral gain (l :: m :: rest)
          = if gain l < gain m then bestLiteral gain (m :: rest)
            else bestLiteral gain (l :: rest) := by
        simp only [bestLiteral, List.foldl_cons]
        split <;> rfl
      rw [skip, firstBest_cons_cons]
      split
      · exact ih m
      · exact ih l

theorem firstBest_isSome (gain : Literal → Int) {ls : List Literal} (h : ls ≠ []) :
    ∃ l, firstBest gain ls = some l := by
  obtain ⟨first, rest, rfl⟩ := List.exists_cons_of_ne_nil h
  have : (bestLiteral gain (first :: rest)).isSome = true := rfl
  rw [bestLiteral_eq, Option.isSome_map] at this
  exact Option.isSome_iff_exists.mp this

/-- Only the gains of the literals themselves matter. -/
theorem firstBest_congr {gain other : Literal → Int} {ls : List Literal}
    (h : ∀ l ∈ ls, gain l = other l) : firstBest gain ls = firstBest other ls := by
  have same : ∀ l ∈ ls, (ls.all fun m => decide (gain m ≤ gain l))
      = ls.all fun m => decide (other m ≤ other l) := by
    intro l hl
    rw [Bool.eq_iff_iff]
    simp only [List.all_eq_true, decide_eq_true_eq]
    constructor
    · intro best m hm
      rw [← h l hl, ← h m hm]
      exact best m hm
    · intro best m hm
      rw [h l hl, h m hm]
      exact best m hm
  unfold firstBest
  rw [← List.head?_filter, ← List.head?_filter, List.filter_congr same]

/-! ## The noise level of a greedy move -/

/-- An adaptation goes down by one or up by one and stays on the scale. -/
theorem Noise.percent_adapt {n : Noise} (h : n.percent ≤ maximum) (gain improvement : Int) :
    (n.adapt gain improvement).1.percent
      = if improvement < gain then n.percent - 1 else min (n.percent + 1) maximum := by
  unfold adapt
  split
  · split
    · next atZero => rw [atZero]
    · rfl
  · split
    · next atMaximum => rw [atMaximum, Nat.min_eq_right (Nat.le_succ _)]
    · next below => exact (Nat.min_eq_left (Nat.lt_of_le_of_ne h below)).symm

namespace Search

variable {σ : Type}

/-! ## The fields of a search after a move -/

@[simp] theorem state_flip (s : Search σ) (p : Nat) :
    (s.flip p).state = s.state.flip s.problem p := rfl

@[simp] theorem problem_move (s : Search σ) (l : Literal) : (s.move l).problem = s.problem := rfl

@[simp] theorem state_move (s : Search σ) (l : Literal) :
    (s.move l).state = s.state.flip s.problem l.proposition := rfl

@[simp] theorem noise_move (s : Search σ) (l : Literal) : (s.move l).noise = s.noise := rfl

@[simp] theorem adaptive_move (s : Search σ) (l : Literal) :
    (s.move l).adaptive = s.adaptive := rfl

@[simp] theorem source_move (s : Search σ) (l : Literal) : (s.move l).source = s.source := rfl

@[simp] theorem problem_adapt (s : Search σ) (g : Int) : (s.adapt g).problem = s.problem := by
  unfold adapt
  split <;> rfl

@[simp] theorem state_adapt (s : Search σ) (g : Int) : (s.adapt g).state = s.state := by
  unfold adapt
  split <;> rfl

@[simp] theorem adaptive_adapt (s : Search σ) (g : Int) :
    (s.adapt g).adaptive = s.adaptive := by
  unfold adapt
  split <;> rfl

@[simp] theorem source_adapt (s : Search σ) (g : Int) : (s.adapt g).source = s.source := by
  unfold adapt
  split <;> rfl

@[simp] theorem state_randomMove (s : Search σ) (l : Literal) :
    (s.randomMove l).state = s.state.flip s.problem l.proposition := rfl

@[simp] theorem problem_greedyMove (s : Search σ) (l : Literal) (g : Int) :
    (s.greedyMove l g).problem = s.problem := by
  simp [greedyMove]

@[simp] theorem state_greedyMove (s : Search σ) (l : Literal) (g : Int) :
    (s.greedyMove l g).state = s.state.flip s.problem l.proposition := by
  simp [greedyMove]

@[simp] theorem adaptive_greedyMove (s : Search σ) (l : Literal) (g : Int) :
    (s.greedyMove l g).adaptive = s.adaptive := by
  simp [greedyMove]

@[simp] theorem source_greedyMove (s : Search σ) (l : Literal) (g : Int) :
    (s.greedyMove l g).source = s.source := by
  simp [greedyMove]

/-! ## Another source -/

/-- The same search with another source, which may be of another kind. -/
def redraw {τ : Type} (s : Search σ) (source : τ) : Search τ :=
  ⟨s.problem, s.state, s.noise, s.adaptive, source, s.counters⟩

@[simp] theorem state_redraw {τ : Type} (s : Search σ) (source : τ) :
    (s.redraw source).state = s.state := rfl

@[simp] theorem isSolved_redraw {τ : Type} (s : Search σ) (source : τ) :
    (s.redraw source).isSolved = s.isSolved := rfl

@[simp] theorem noise_redraw {τ : Type} (s : Search σ) (source : τ) :
    (s.redraw source).noise = s.noise := rfl

@[simp] theorem adaptive_redraw {τ : Type} (s : Search σ) (source : τ) :
    (s.redraw source).adaptive = s.adaptive := rfl

/-! ## Sound searches -/

/-- A search whose state is exact for its problem. -/
structure Sound (s : Search σ) (P : Problem) : Prop where
  problem : s.problem = P
  wellFormed : P.WellFormed
  exact : s.state.Exact P

/-- A search with nothing violated stays as it is. -/
theorem step_of_isSolved [RandomSource σ] {s : Search σ} (solved : s.isSolved = true) :
    s.step = s := by
  rw [step, if_pos solved]

theorem violatedCount_pos {s : Search σ} (unsolved : s.isSolved = false) :
    0 < s.state.violatedCount := by
  refine Nat.pos_of_ne_zero fun none => ?_
  have empty : s.state.violated.toList = [] := by
    rw [← List.length_eq_zero_iff, SwapSet.length_toList]
    exact none
  have solved : s.isSolved = true := (SwapSet.isEmpty_eq_true_iff _).mpr empty
  rw [solved] at unsolved
  exact Bool.false_ne_true unsolved.symm

/-! ## Draws -/

section

variable [RandomSource σ]

theorem drawKind_redraw (s : Search σ) {coin : Nat} {s₁ s₂ : σ}
    (tossed : RandomSource.below Noise.maximum s₁ = (coin, s₂)) :
    (s.redraw s₁).drawKind = (decide (coin < s.noise.percent), s.redraw s₂) := by
  simp [drawKind, Noise.toss, redraw, tossed]

theorem drawLiteral_redraw (s : Search σ) (c : Constraint) {index : Nat} {s₁ s₂ : σ}
    (chosen : RandomSource.below c.literals.length s₁ = (index, s₂)) :
    (s.redraw s₁).drawLiteral c = (c.literals[index]?, s.redraw s₂) := by
  simp [drawLiteral, redraw, chosen]

end

/-- The literal of a greedy move is the first one of largest gain. -/
theorem greedyLiteral_eq (s : Search σ) (c : Constraint) :
    s.greedyLiteral c = (firstBest (fun l => s.gain l.proposition) c.literals).map
      fun l => (l, s.gain l.proposition) :=
  bestLiteral_eq _ _

/-! ## The inversion of a step -/

variable [InRangeSource σ] {P : Problem} {s : Search σ}

/-- What a step of a search can lead to, with the draws on the way. -/
inductive StepCases (P : Problem) (s : Search σ) : Search σ → Prop where
  | solved (done : s.isSolved = true) : StepCases P s s
  | random {c : Constraint} {l : Literal} {position coin index : Nat} {s₁ s₂ s₃ : σ}
      (unsolved : s.isSolved = false) (known : c ∈ P.constraints.toList)
      (drawn : RandomSource.below s.state.violatedCount s.source = (position, s₁))
      (picked : s.state.violated.toList[position]? = some c.id)
      (tossed : RandomSource.below Noise.maximum s₁ = (coin, s₂))
      (heads : coin < s.noise.percent)
      (chosen : RandomSource.below c.literals.length s₂ = (index, s₃))
      (literal : c.literals[index]? = some l) :
      StepCases P s ((s.redraw s₃).randomMove l)
  | greedy {c : Constraint} {l : Literal} {position coin : Nat} {s₁ s₂ : σ}
      (unsolved : s.isSolved = false) (known : c ∈ P.constraints.toList)
      (drawn : RandomSource.below s.state.violatedCount s.source = (position, s₁))
      (picked : s.state.violated.toList[position]? = some c.id)
      (tossed : RandomSource.below Noise.maximum s₁ = (coin, s₂))
      (tails : ¬ coin < s.noise.percent)
      (best : firstBest (fun l => s.gain l.proposition) c.literals = some l) :
      StepCases P s ((s.redraw s₂).greedyMove l (s.gain l.proposition))

/-- A violated constraint can be drawn from an unsolved search. -/
theorem Sound.exists_drawn (h : s.Sound P) (unsolved : s.isSolved = false) {position : Nat}
    {s₁ : σ} (drawn : RandomSource.below s.state.violatedCount s.source = (position, s₁)) :
    ∃ c ∈ P.constraints.toList, s.state.violated.toList[position]? = some c.id ∧
      P.constraint? c.id = some c := by
  have inRange := InRangeSource.below_lt s.state.violatedCount s.source
    (violatedCount_pos unsolved)
  rw [drawn, Satisfaction.violatedCount, ← SwapSet.length_toList] at inRange
  have member := List.getElem?_eq_getElem inRange
  obtain ⟨c, hc, id⟩ := h.wellFormed.exists_constraint
    (h.exact.capacity ▸ h.exact.coherent.lt_capacity (List.getElem_mem inRange))
  exact ⟨c, hc, by rw [member, id], h.wellFormed.constraint?_id hc⟩

/-- What is drawn from a source that gives this position. -/
theorem Sound.drawConstraint_eq (h : s.Sound P) {c : Constraint} {position : Nat} {s₁ : σ}
    (known : c ∈ P.constraints.toList)
    (drawn : RandomSource.below s.state.violatedCount s.source = (position, s₁))
    (picked : s.state.violated.toList[position]? = some c.id) :
    s.drawConstraint = (some c, s.redraw s₁) := by
  have found := h.wellFormed.constraint?_id known
  simp [drawConstraint, drawn, SwapSet.get?_eq_getElem?_toList, picked, h.problem, found, redraw]

theorem Sound.step_cases (h : s.Sound P) : StepCases P s s.step := by
  unfold step
  cases unsolved : s.isSolved with
  | true => exact .solved unsolved
  | false =>
    obtain ⟨position, s₁, drawn⟩ : ∃ position s₁,
        RandomSource.below s.state.violatedCount s.source = (position, s₁) := ⟨_, _, rfl⟩
    obtain ⟨c, known, picked, found⟩ := h.exists_drawn unsolved drawn
    obtain ⟨coin, s₂, tossed⟩ : ∃ coin s₂, RandomSource.below Noise.maximum s₁ = (coin, s₂) :=
      ⟨_, _, rfl⟩
    rw [h.drawConstraint_eq known drawn picked]
    simp only [Bool.false_eq_true, if_false]
    rw [moveIn, s.drawKind_redraw tossed]
    have nonempty : c.literals ≠ [] := (h.wellFormed.admissible c known).literals_ne_nil
    by_cases heads : coin < s.noise.percent
    · obtain ⟨index, s₃, chosen⟩ : ∃ index s₃,
          RandomSource.below c.literals.length s₂ = (index, s₃) := ⟨_, _, rfl⟩
      have inRange := InRangeSource.below_lt c.literals.length s₂ (List.length_pos_iff.mpr nonempty)
      rw [chosen] at inRange
      have literal := List.getElem?_eq_getElem inRange
      simp only [heads, decide_true, s.drawLiteral_redraw c chosen, literal]
      exact .random unsolved known drawn picked tossed heads chosen literal
    · obtain ⟨l, best⟩ := firstBest_isSome (fun l => s.gain l.proposition) nonempty
      have greedy : (s.redraw s₂).greedyLiteral c = some (l, s.gain l.proposition) := by
        show s.greedyLiteral c = _
        rw [s.greedyLiteral_eq, best]
        rfl
      simp only [heads, decide_false, greedy]
      exact .greedy unsolved known drawn picked tossed heads best

end Search

end CardinalitySearch
