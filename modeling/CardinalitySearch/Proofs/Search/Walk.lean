/-
CardinalitySearch.Proofs.Search.Walk — a step without any cache.

`Walk` is all that a step depends on: the assignment, the violated constraints
in the order in which they are drawn from, the noise level, and by how much
the latest flip lowered the number of violated constraints.  Its step counts
the constraints of the problem anew whenever it needs a number, for the gain of
every literal it looks at and for every constraint it revises.

The main statement is that a search steps as its view as a `Walk` does: with
the same draws taken from the same source, the same flip, the same order of
the violated constraints and the same answer, over runs of any length.  Draws
are compared through the source: on either side it is handed on from draw to
draw, and it ends in the same state for every kind of source.

The walk counts without limits and the search in words.  So the statement is about
problems whose sizes fit words, and `copies_step_unlike_walk` about one where the
two part.
-/
import CardinalitySearch.Proofs.Satisfaction.Gain
import CardinalitySearch.Proofs.Satisfaction.Order
import CardinalitySearch.Proofs.Search.Copies
import CardinalitySearch.Proofs.Search.Soundness

namespace CardinalitySearch

/-- What a step depends on. -/
structure Walk where
  assignment : Assignment
  /-- The violated constraints in the order of the draws. -/
  violated : List Nat
  /-- The noise level in percent. -/
  noise : Nat
  /-- By how much the latest flip lowered the number of violated constraints. -/
  improvement : Option Int
deriving DecidableEq

namespace Walk

/-- At the start the violated constraints are in increasing order. -/
def start (P : Problem) (a : Assignment) (noise : Nat) : Walk :=
  ⟨a, P.violatedBy a, min noise 100, none⟩

/-- Moves the noise level by one if it adapts and there was a flip: down for a
gain above the latest improvement, else up. -/
def adapt (w : Walk) (adaptive : Bool) (gain : Int) : Walk :=
  match adaptive, w.improvement with
  | true, some improvement =>
    { w with noise := if improvement < gain then w.noise - 1 else min (w.noise + 1) 100 }
  | _, _ => w

/-- Toggles a proposition and revises the violated constraints. -/
def flip (w : Walk) (P : Problem) (p : Nat) : Walk :=
  let toggled := w.assignment.toggle p
  ⟨toggled, P.revise w.assignment toggled w.violated, w.noise, some (P.gain w.assignment p)⟩

variable {σ : Type} [RandomSource σ]

/-- Chooses a literal of a constraint: a drawn one if the coin lies below the
noise level, else the first one of maximal gain, after which the noise level
adapts.  No literal is chosen if a draw is out of range. -/
def choose? (w : Walk) (P : Problem) (adaptive : Bool) (c : Constraint) (source : σ) :
    Option (Literal × Walk × σ) :=
  let gain := fun l : Literal => P.gain w.assignment l.proposition
  let (coin, source) := RandomSource.below 100 source
  if coin < w.noise then
    let (index, source) := RandomSource.below c.literals.length source
    c.literals[index]?.map fun l => (l, w, source)
  else
    (firstBest gain c.literals).map fun l => (l, w.adapt adaptive (gain l), source)

/-- One step, with the answer whether nothing is violated after it. -/
def step? (w : Walk) (P : Problem) (adaptive : Bool) (source : σ) : Option (Bool × Walk × σ) :=
  if w.violated = [] then some (true, w, source)
  else
    let (position, source) := RandomSource.below w.violated.length source
    (w.violated[position]?.bind P.constraint?).bind fun c =>
      (w.choose? P adaptive c source).map fun (l, w, source) =>
        let w := w.flip P l.proposition
        (w.violated.isEmpty, w, source)

/-- A number of steps, with their answers in order. -/
def run? (P : Problem) (adaptive : Bool) : Nat → Walk → σ → Option (List Bool × Walk × σ)
  | 0, w, source => some ([], w, source)
  | n + 1, w, source =>
    (w.step? P adaptive source).bind fun (answer, w, source) =>
      (run? P adaptive n w source).map fun (answers, w, source) => (answer :: answers, w, source)

end Walk

namespace Search

variable {σ : Type}

/-- What the next step of a search depends on. -/
def walk (s : Search σ) : Walk :=
  ⟨s.state.assignment, s.state.violated.toList, s.noise.percent,
    s.state.lastFlip.map (·.improvement)⟩

variable {P : Problem} {s : Search σ}

/-! ## The view of a flip and of an adaptation -/

theorem length_violated_walk (s : Search σ) : s.walk.violated.length = s.state.violatedCount :=
  SwapSet.length_toList _

theorem isEmpty_violated_walk (s : Search σ) : s.walk.violated.isEmpty = s.isSolved := by
  rw [Bool.eq_iff_iff, List.isEmpty_iff]
  exact (SwapSet.isEmpty_eq_true_iff _).symm

theorem violated_walk_ne_nil (unsolved : s.isSolved = false) : s.walk.violated ≠ [] := by
  rw [← isEmpty_violated_walk] at unsolved
  simpa using unsolved

theorem walk_adapt (le : s.noise.percent ≤ Noise.maximum) (gain : Int) :
    (s.adapt gain).walk = s.walk.adapt s.adaptive gain := by
  unfold walk Walk.adapt
  rw [state_adapt]
  unfold adapt
  cases adapts : s.adaptive with
  | false => rfl
  | true =>
    cases flipped : s.state.lastFlip with
    | none => rfl
    | some last =>
      have percent := Noise.percent_adapt le gain last.improvement
      simp [percent, Noise.maximum]

namespace Sound

theorem walk_flip (h : s.Sound P) {p : Nat} (hp : p < P.propositionCount) :
    (s.flip p).walk = s.walk.flip P p := by
  have order := h.exact.toList_violated_flip h.wellFormed hp
  have last := h.exact.lastFlip_flip h.wellFormed hp
  unfold walk Walk.flip
  rw [state_flip, h.problem, order, last, Satisfaction.assignment_flip]
  rfl

theorem walk_randomMove (h : s.Sound P) {l : Literal} (hl : l.proposition < P.propositionCount) :
    (s.randomMove l).walk = s.walk.flip P l.proposition :=
  h.walk_flip hl

theorem walk_greedyMove (h : s.Sound P) (le : s.noise.percent ≤ Noise.maximum) {l : Literal}
    (hl : l.proposition < P.propositionCount) (gain : Int) :
    (s.greedyMove l gain).walk = (s.walk.adapt s.adaptive gain).flip P l.proposition := by
  let counted : Search σ :=
    { s with counters := { s.counters with greedyMoves := s.counters.greedyMoves + 1 } }
  have sound : counted.Sound P := ⟨h.problem, h.wellFormed, h.exact⟩
  have level : counted.noise.percent ≤ Noise.maximum := le
  have adapted : (counted.adapt gain).walk = s.walk.adapt s.adaptive gain :=
    walk_adapt level gain
  have flipped := (sound.adapt gain).walk_flip hl
  rw [adapted] at flipped
  exact flipped

/-- The gain that a walk recounts is the one that a search reads off. -/
theorem gain_walk (h : s.Sound P) {p : Nat} (hp : p < P.propositionCount) :
    P.gain s.walk.assignment p = s.gain p := by
  rw [h.gain_eq hp]
  rfl

theorem firstBest_walk (h : s.Sound P) {c : Constraint} (known : c ∈ P.constraints.toList) :
    firstBest (fun l => P.gain s.walk.assignment l.proposition) c.literals
      = firstBest (fun l => s.gain l.proposition) c.literals :=
  firstBest_congr fun _ hl => h.gain_walk (h.proposition_lt known hl)

end Sound

/-! ## The view of a step -/

variable [InRangeSource σ]

/-- A constraint drawn and a literal chosen in it make up a step. -/
theorem Sound.step?_walk (h : s.Sound P) (unsolved : s.isSolved = false) {c : Constraint}
    {l : Literal} {position : Nat} {s₁ s₂ : σ} {w : Walk} (known : c ∈ P.constraints.toList)
    (drawn : RandomSource.below s.state.violatedCount s.source = (position, s₁))
    (picked : s.state.violated.toList[position]? = some c.id)
    (chosen : s.walk.choose? P s.adaptive c s₁ = some (l, w, s₂)) :
    s.walk.step? P s.adaptive s.source
      = some ((w.flip P l.proposition).violated.isEmpty, w.flip P l.proposition, s₂) := by
  have found : s.walk.violated[position]?.bind P.constraint? = some c := by
    show s.state.violated.toList[position]?.bind P.constraint? = some c
    rw [picked, Option.bind_some, h.wellFormed.constraint?_id known]
  unfold Walk.step?
  rw [if_neg (violated_walk_ne_nil unsolved), length_violated_walk, drawn]
  dsimp only
  rw [found, Option.bind_some, chosen]
  rfl

/-- A search steps as its view does, with the same draws and the same answer. -/
theorem Sound.walk_step (h : s.Sound P) (le : s.noise.percent ≤ Noise.maximum) :
    s.walk.step? P s.adaptive s.source = some (s.step.isSolved, s.step.walk, s.step.source) := by
  have cases := h.step_cases
  generalize s.step = t at cases
  cases cases with
  | solved done =>
    have nothing : s.walk.violated = [] := (SwapSet.isEmpty_eq_true_iff _).mp done
    rw [Walk.step?, if_pos nothing, done]
  | @random c l position coin index s₁ s₂ s₃ unsolved known drawn picked tossed heads chosen
      literal =>
    have hl := h.proposition_lt known (List.mem_of_getElem? literal)
    -- both sides draw from the same source, so that the draws of the case are those of the walk
    have choice : s.walk.choose? P s.adaptive c s₁ = some (l, s.walk, s₃) := by
      have tossed' : RandomSource.below 100 s₁ = (coin, s₂) := tossed
      have heads' : coin < s.walk.noise := heads
      unfold Walk.choose?
      simp only [tossed', heads', chosen, literal, if_true, Option.map_some]
    rw [h.step?_walk unsolved known drawn picked choice, ← isEmpty_violated_walk,
      (h.redraw s₃).walk_randomMove hl]
    rfl
  | @greedy c l position coin s₁ s₂ unsolved known drawn picked tossed tails best =>
    have hl := h.proposition_lt known (List.mem_of_find?_eq_some best)
    have choice : s.walk.choose? P s.adaptive c s₁
        = some (l, s.walk.adapt s.adaptive (s.gain l.proposition), s₂) := by
      have tossed' : RandomSource.below 100 s₁ = (coin, s₂) := tossed
      have tails' : ¬ coin < s.walk.noise := tails
      unfold Walk.choose?
      simp only [tossed', tails', if_false, h.firstBest_walk known, best, Option.map_some,
        h.gain_walk hl]
    rw [h.step?_walk unsolved known drawn picked choice, ← isEmpty_violated_walk,
      (h.redraw s₂).walk_greedyMove le hl, source_greedyMove]
    rfl

/-! ## Runs -/

/-- Steps of any number are the steps of the view. -/
theorem Reachable.walk_stepMany (hP : P.WellFormed) (n : Nat) :
    ∀ {s : Search σ}, s.Reachable P →
      Walk.run? P s.adaptive n s.walk s.source
        = some ((s.stepMany n).1, (s.stepMany n).2.walk, (s.stepMany n).2.source) := by
  induction n with
  | zero => exact fun _ => rfl
  | succ n ih =>
    intro s hs
    have sound := hs.sound hP
    have first := sound.walk_step (hs.noise_le hP)
    have rest := ih hs.step
    rw [sound.adaptive_step] at rest
    rw [Walk.run?, first, Option.bind_some]
    dsimp only
    rw [rest]
    rfl

/-- A search that starts has the view of a walk that starts, with the violated
constraints in increasing order; the violated constraints in the view of a
reachable search are those that counting anew finds, each once, and the search
steps as its view does; and so do runs of any length.  The search counts in words,
which have to fit the sizes of the problem, and the walk without limits. -/
theorem stepMany_refines_walk (hP : P.Built .words) (small : P.FitsWords) :
    (∀ (settings : Settings) (initial : InitialAssignment) (source source' : σ)
        (a : Assignment),
      initial.assignment? P.propositionCount source = some (a, source') →
      ∃ s, start? P settings initial source = some s ∧
        s.walk = Walk.start P a settings.noise ∧ s.source = source' ∧
        s.adaptive = settings.adaptive ∧ s.walk.violated.Pairwise (· < ·)) ∧
    (∀ s : Search σ, s.Reachable P →
      s.walk.violated.Nodup ∧
      (∀ i, i ∈ s.walk.violated ↔ ∃ c, P.constraint? i = some c ∧
        ¬ (c.atLeast ≤ s.walk.assignment.countTrue c.literals ∧
          s.walk.assignment.countTrue c.literals ≤ c.atMost)) ∧
      s.walk.step? P s.adaptive s.source
        = some (s.step.isSolved, s.step.walk, s.step.source)) ∧
    (∀ (s : Search σ) (n : Nat), s.Reachable P →
      Walk.run? P s.adaptive n s.walk s.source
        = some ((s.stepMany n).1, (s.stepMany n).2.walk, (s.stepMany n).2.source)) := by
  have wellFormed := hP.wellFormed_words small
  refine ⟨?_, ?_, ?_⟩
  · intro settings initial source source' a drawn
    have order := (Satisfaction.toList_violated_ofAssignment wellFormed a).2.2
    have view : (ofAssignment P settings a source').walk = Walk.start P a settings.noise := by
      unfold walk Walk.start ofAssignment
      rw [order]
      rfl
    refine ⟨ofAssignment P settings a source', ?_, view, rfl, rfl, ?_⟩
    · rw [start?, drawn, Option.map_some]
    · rw [view]
      exact wellFormed.violatedBy_pairwise a
  · intro s hs
    have sound := hs.sound wellFormed
    exact ⟨sound.exact.coherent.nodup, fun i => sound.mem_violated_iff i,
      sound.walk_step (hs.noise_le wellFormed)⟩
  · exact fun s n hs => hs.walk_stepMany wellFormed n

theorem stepMany_refines_walk_sample :
    Walk.run? (sampleProblem .words) true 2
        (Walk.start (sampleProblem .words) ⟨#[true, true, false]⟩ 30)
        (⟨[0, 29, 1, 1, 30], [], []⟩ : Script)
      = some (((sampleSearch .words).stepMany 2).1, ((sampleSearch .words).stepMany 2).2.walk,
          ((sampleSearch .words).stepMany 2).2.source) ∧
      ((sampleSearch .words).stepMany 2).2.walk = ⟨⟨#[true, true, false]⟩, [0], 31, some 0⟩ := by
  have refined := stepMany_refines_walk (σ := Script) sampleProblem_built sampleProblem_fitsWords
  exact ⟨refined.2.2 (sampleSearch .words) 2 sampleSearch_reachable, by decide⟩

/-! ## Copies of one literal -/

section Copies

variable {C : Copies}

/-- Copies that become satisfied are not violated any more. -/
theorem revise_copies {value : Bool}
    (before : C.constraint.satisfiedBy ⟨#[value]⟩ = false)
    (after : C.constraint.satisfiedBy ⟨#[!value]⟩ = true) :
    C.problem.revise ⟨#[value]⟩ ⟨#[!value]⟩ [0] = [] := by
  have changes : (⟨#[!value]⟩ : Assignment).countTrue C.constraint.literals
      ≠ (⟨#[value]⟩ : Assignment).countTrue C.constraint.literals := fun same => by
    rw [Constraint.satisfiedBy, same] at after
    exact Bool.false_ne_true (before.symm.trans after)
  have changed : C.problem.changed ⟨#[value]⟩ ⟨#[!value]⟩ = [C.constraint] := by
    rw [Problem.changed, C.toList_constraints]
    exact List.filter_cons_of_pos (decide_eq_true changes)
  rw [Problem.revise, changed, List.foldl_cons, List.foldl_nil, Constraint.revise, before, after]
  rfl

/-- At the upper end of the noise scale a literal is drawn, and there is only one. -/
theorem choose?_copies {w : Walk} (full : w.noise = 100) (adaptive : Bool) (source : σ) :
    ∃ source', w.choose? C.problem adaptive C.constraint source
      = some (C.literal, w, source') := by
  have heads := InRangeSource.below_lt 100 source (by decide)
  have inside := InRangeSource.below_lt C.number (RandomSource.below 100 source).2 C.number_pos
  unfold Walk.choose?
  dsimp only
  rw [if_pos (full.symm ▸ heads), C.length_literals, C.getElem?_literals inside]
  exact ⟨_, rfl⟩

/-- So a step on violated copies flips their proposition. -/
theorem step?_copies {w : Walk} (full : w.noise = 100) (violated : w.violated = [0])
    (adaptive : Bool) (source : σ) :
    ∃ source', w.step? C.problem adaptive source
      = some ((w.flip C.problem 0).violated.isEmpty, w.flip C.problem 0, source') := by
  have first : (RandomSource.below 1 source).1 = 0 :=
    Nat.lt_one_iff.mp (InRangeSource.below_lt 1 source Nat.one_pos)
  obtain ⟨source', chosen⟩ :=
    choose?_copies (C := C) full adaptive (RandomSource.below 1 source).2
  refine ⟨source', ?_⟩
  unfold Walk.step?
  dsimp only
  rw [violated, if_neg (List.cons_ne_nil 0 []), List.length_singleton, first,
    List.getElem?_cons_zero, Option.bind_some, C.constraint?_problem, Option.bind_some, chosen]
  rfl

/-- In a clause of 2147483648 copies the step of the walk answers that nothing is violated
any more, and the step in words that something is. -/
theorem copies_step_unlike_walk :
    let C := Copies.least 1 2147483648
    let s := C.start false 100 (⟨[], [], []⟩ : Script)
    s.Reachable C.problem ∧ s.step.isSolved = false ∧
      (s.walk.step? C.problem s.adaptive s.source).map (·.1) = some true := by
  intro C s
  have here : C.InState s false _ none := Copies.inState_start false 100 _
  have after := here.step (Copies.keptWeight_least_ne_zero _) (by decide)
  have walk : s.walk = ⟨⟨#[false]⟩, [0], 100, none⟩ := by
    rw [Search.walk, here.state]
    decide
  obtain ⟨source, stepped⟩ := step?_copies (C := C) (congrArg Walk.noise walk)
    (congrArg Walk.violated walk) s.adaptive s.source
  have toggled : (⟨#[false]⟩ : Assignment).toggle 0 = ⟨#[true]⟩ := rfl
  have revised : C.problem.revise ⟨#[false]⟩ ⟨#[true]⟩ [0] = [] :=
    revise_copies ((C.satisfiedBy_constraint false).trans (by decide))
      ((C.satisfiedBy_constraint true).trans (by decide))
  have none : (s.walk.flip C.problem 0).violated = [] := by
    rw [walk, Walk.flip, toggled]
    dsimp only
    rw [revised]
  refine ⟨Copies.reachable_start false 100 _, ?_, ?_⟩
  · rw [after.isSolved]
    decide
  · rw [stepped, none]
    rfl

end Copies

end Search

end CardinalitySearch
