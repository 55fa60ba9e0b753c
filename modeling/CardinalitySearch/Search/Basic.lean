/-
CardinalitySearch.Search.Basic — one step of a local search.

A search holds a problem, a state of it, and what its choices depend on: the
noise level and a source of random choices.  A step picks a violated
constraint at random and flips one of its literals.  With the probability of
the noise level the literal is a random one, otherwise the one with the
largest gain, the first such literal of the constraint winning.  Only after a
greedy choice, and only if there was a flip before, does the noise level adapt.

A step of a search with nothing violated changes nothing and draws nothing.
-/
import CardinalitySearch.Satisfaction.Check
import CardinalitySearch.Noise

namespace CardinalitySearch

/-- How often a search did what. -/
structure Counters where
  /-- Steps, not counting flips made by hand. -/
  steps : Nat := 0
  /-- Steps that flipped a random literal. -/
  randomMoves : Nat := 0
  /-- Steps that flipped a literal with the largest gain. -/
  greedyMoves : Nat := 0
  /-- Adaptations that raised the noise level. -/
  noiseIncreases : Nat := 0
  /-- Adaptations that lowered the noise level. -/
  noiseDecreases : Nat := 0
deriving DecidableEq

/-- The counters after an adaptation of the noise level. -/
def Counters.record (c : Counters) : Noise.Adjustment → Counters
  | .increased => { c with noiseIncreases := c.noiseIncreases + 1 }
  | .decreased => { c with noiseDecreases := c.noiseDecreases + 1 }
  | .unchanged => c

/-- Where a search starts. -/
inductive InitialAssignment where
  /-- At values drawn from the source. -/
  | random
  /-- With every proposition false. -/
  | allFalse
  /-- At these values. -/
  | given (values : Array Bool)
deriving DecidableEq

/-- What a search can be told beforehand. -/
structure Settings where
  /-- The noise level in percent at the start; the scale ends at 100. -/
  noise : Nat := Noise.default.percent
  /-- Whether the noise level adapts. -/
  adaptive : Bool := true
deriving DecidableEq

/-- A local search with random choices from `σ`. -/
structure Search (σ : Type) where
  /-- The problem, which never changes. -/
  problem : Problem
  /-- The current assignment and the state of every constraint. -/
  state : Satisfaction
  /-- The current noise level. -/
  noise : Noise
  /-- Whether the noise level adapts after greedy moves. -/
  adaptive : Bool
  /-- Where random choices come from. -/
  source : σ
  /-- What was done so far. -/
  counters : Counters

namespace Assignment

variable {σ : Type} [RandomSource σ]

/-- Draws values for `n` further propositions, in order. -/
def drawValues : Nat → Array Bool → σ → Array Bool × σ
  | 0, values, source => (values, source)
  | n + 1, values, source =>
    let (value, source) := RandomSource.coin source
    drawValues n (values.push value) source

/-- Draws an assignment of `n` propositions. -/
def random (n : Nat) (source : σ) : Assignment × σ :=
  let (values, source) := drawValues n #[] source
  (⟨values⟩, source)

end Assignment

namespace InitialAssignment

/-- The assignment of `n` propositions to start at; `none` if values are given
and there are not `n` of them. -/
def assignment? {σ : Type} [RandomSource σ] (initial : InitialAssignment) (n : Nat)
    (source : σ) : Option (Assignment × σ) :=
  match initial with
  | .random => some (Assignment.random n source)
  | .allFalse => some (Assignment.allFalse n, source)
  | .given values => if values.size = n then some (⟨values⟩, source) else none

end InitialAssignment

/-- The literal with the largest gain, the first one of several, together with
its gain. -/
def bestLiteral (gain : Literal → Int) : List Literal → Option (Literal × Int)
  | [] => none
  | first :: rest =>
    some (rest.foldl
      (fun best l => if best.2 < gain l then (l, gain l) else best) (first, gain first))

namespace Search

variable {σ : Type}

/-- A search of a problem that starts at an assignment. -/
def ofAssignment (P : Problem) (settings : Settings) (a : Assignment) (source : σ) :
    Search σ where
  problem := P
  state := Satisfaction.ofAssignment P a
  noise := Noise.clamp settings.noise
  adaptive := settings.adaptive
  source := source
  counters := {}

/-- A search of a problem; `none` if the values given to start at are not one
for each proposition. -/
def start? [RandomSource σ] (P : Problem) (settings : Settings)
    (initial : InitialAssignment) (source : σ) : Option (Search σ) :=
  (initial.assignment? P.propositionCount source).map fun (a, source) =>
    ofAssignment P settings a source

/-- Whether no constraint is violated. -/
def isSolved (s : Search σ) : Bool :=
  s.state.isSolved

/-- What is reported when a search has been set up. -/
def startEvent (s : Search σ) : Event :=
  .started s.problem.propositionCount s.problem.constraintCount s.state.violatedCount

/-- Flips a proposition by hand. -/
def flip (s : Search σ) (p : Nat) : Search σ :=
  let ⟨problem, state, noise, adaptive, source, counters⟩ := s
  ⟨problem, state.flip problem p, noise, adaptive, source, counters⟩

/-- A flip changes the state only. -/
theorem flip_eq (s : Search σ) (p : Nat) :
    s.flip p = { s with state := s.state.flip s.problem p } :=
  rfl

/-- `flip` for a proposition of the problem. -/
def flip? (s : Search σ) (p : Nat) : Option (Search σ) :=
  if p < s.problem.propositionCount then some (s.flip p) else none

/-- Sets the noise level to the closest one on the scale. -/
def setNoise (s : Search σ) (percent : Nat) : Search σ :=
  { s with noise := Noise.clamp percent }

/-- By how much a flip of a proposition would lower the number of violated
constraints. -/
def gain (s : Search σ) (p : Nat) : Int :=
  s.state.gain s.problem p

/-- The literal a greedy move flips, with its gain. -/
def greedyLiteral (s : Search σ) (c : Constraint) : Option (Literal × Int) :=
  bestLiteral (fun l => s.gain l.proposition) c.literals

/-- Flips a literal's proposition as a step. -/
def move (s : Search σ) (l : Literal) : Search σ :=
  let s := s.flip l.proposition
  { s with counters := { s.counters with steps := s.counters.steps + 1 } }

/-- Adapts the noise level to the gain of the greedy move about to be made. -/
def adapt (s : Search σ) (gain : Int) : Search σ :=
  match s.adaptive, s.state.lastFlip with
  | true, some last =>
    let (noise, adjustment) := s.noise.adapt gain last.improvement
    { s with noise := noise, counters := s.counters.record adjustment }
  | _, _ => s

/-- Makes a random move. -/
def randomMove (s : Search σ) (l : Literal) : Search σ :=
  { s with counters := { s.counters with randomMoves := s.counters.randomMoves + 1 } }.move l

/-- Makes a greedy move of known gain. -/
def greedyMove (s : Search σ) (l : Literal) (gain : Int) : Search σ :=
  ({ s with
      counters := { s.counters with greedyMoves := s.counters.greedyMoves + 1 } }.adapt gain).move l

variable [RandomSource σ]

/-- Draws a violated constraint. -/
def drawConstraint (s : Search σ) : Option Constraint × Search σ :=
  let (position, source) := RandomSource.below s.state.violatedCount s.source
  ((s.state.violated.get? position).bind s.problem.constraint?, { s with source })

/-- Draws whether the next move is a random one. -/
def drawKind (s : Search σ) : Bool × Search σ :=
  let (isRandom, source) := s.noise.toss s.source
  (isRandom, { s with source })

/-- Draws a literal of a constraint. -/
def drawLiteral (s : Search σ) (c : Constraint) : Option Literal × Search σ :=
  let (position, source) := RandomSource.below c.literals.length s.source
  (c.literals[position]?, { s with source })

/-- Makes a move in a violated constraint.  A draw that is out of range picks
no literal, and then nothing is flipped. -/
def moveIn (s : Search σ) (c : Constraint) : Search σ :=
  match s.drawKind with
  | (true, s) =>
    match s.drawLiteral c with
    | (some l, s) => s.randomMove l
    | (none, s) => s
  | (false, s) =>
    match s.greedyLiteral c with
    | some (l, gain) => s.greedyMove l gain
    | none => s

/-- One step. -/
def step (s : Search σ) : Search σ :=
  if s.isSolved then s
  else
    match s.drawConstraint with
    | (some c, s) => s.moveIn c
    | (none, s) => s

end Search

end CardinalitySearch
