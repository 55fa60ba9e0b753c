/-
CardinalitySearch.Search.Guarded — steps that stop at a fault.

Beside the entries that it needs, a step has to find a non-empty range for
every number it draws, a constraint that is violated at the position drawn,
and a literal in it.  At the extreme level every flip, by hand or by a step, is
followed by a recount of all constraints.
-/
import CardinalitySearch.Satisfaction.Guarded
import CardinalitySearch.Search.Solve

namespace CardinalitySearch.Search

variable {σ : Type}

/-- `flip` for a proposition of the problem. -/
def flipGuarded (level : Level) (s : Search σ) (p : Nat) : Except Fault (Search σ) := do
  let state ← s.state.flipGuarded level s.problem p
  level.demand .extreme (.inconsistent p) (.ok (state.check s.problem == .consistent))
  return { s with state := state }

/-- `gain` for a proposition of the problem. -/
def gainGuarded (level : Level) (s : Search σ) (p : Nat) : Except Fault Int :=
  s.state.gainGuarded level s.problem p

/-- `greedyLiteral` for a constraint that has literals. -/
def greedyLiteralGuarded (level : Level) (s : Search σ) (c : Constraint) :
    Except Fault (Literal × Int) :=
  match c.literals with
  | [] => .error .noLiterals
  | first :: rest => do
    let gain ← s.gainGuarded level first.proposition
    rest.foldlM (fun best l => do
      let gain ← s.gainGuarded level l.proposition
      return if best.2 < gain then (l, gain) else best) (first, gain)

/-- `move` for a literal over a proposition of the problem. -/
def moveGuarded (level : Level) (s : Search σ) (l : Literal) : Except Fault (Search σ) := do
  let s ← s.flipGuarded level l.proposition
  return { s with counters := { s.counters with steps := s.counters.steps + 1 } }

variable [RandomSource σ]

/-- `start?` that stops where no search can be started. -/
def startGuarded (P : Problem) (settings : Settings) (initial : InitialAssignment) (source : σ) :
    Except Fault (Search σ) := do
  let (a, source) ← Fault.entry .wrongLength (initial.assignment? P.propositionCount source)
  let state ← Satisfaction.ofAssignmentGuarded P a
  return { ofAssignment P settings a source with state := state }

/-- Draws a number below a bound, which must not be zero. -/
def drawGuarded (s : Search σ) (bound : Nat) : Except Fault (Nat × Search σ) := do
  Fault.require .emptyRange (0 < bound)
  let (number, source) := RandomSource.below bound s.source
  return (number, { s with source := source })

/-- `moveIn` for a constraint with literals. -/
def moveInGuarded (level : Level) (s : Search σ) (c : Constraint) : Except Fault (Search σ) := do
  let (coin, s) ← s.drawGuarded Noise.maximum
  if coin < s.noise.percent then
    let s := { s with counters := { s.counters with randomMoves := s.counters.randomMoves + 1 } }
    let (index, s) ← s.drawGuarded c.literals.length
    let l ← Fault.entry (.noLiteral index) c.literals[index]?
    s.moveGuarded level l
  else
    let s := { s with counters := { s.counters with greedyMoves := s.counters.greedyMoves + 1 } }
    let (l, gain) ← s.greedyLiteralGuarded level c
    (s.adapt gain).moveGuarded level l

/-- `step` with a violated constraint at the position drawn. -/
def stepGuarded (level : Level) (s : Search σ) : Except Fault (Search σ) :=
  if s.isSolved then .ok s
  else do
    let (position, s) ← s.drawGuarded s.state.violatedCount
    let i ← Fault.entry (.noMember position) (s.state.violated.get? position)
    let c ← Fault.entry (.noConstraint i) (s.problem.constraint? i)
    level.demand .simple (.satisfied c.id)
      ((s.state.isSatisfiedGuarded s.problem c.id).map (!·))
    s.moveInGuarded level c

variable {τ : Type} [StopCondition τ]

/-- `round` with a guarded step. -/
def roundGuarded (level : Level) (s : Search σ) (condition : τ) : Except Fault (Run σ τ) :=
  if s.isSolved then .ok ⟨.satisfiable s.state.assignment, s, condition⟩
  else
    let (stop, condition) := StopCondition.query condition
    if stop then .ok ⟨.unknown, s, condition⟩
    else do
      let s ← s.stepGuarded level
      return ⟨.unfinished, s, condition⟩

/-- `solveWithin` with guarded steps. -/
def solveWithinGuarded (level : Level) : Nat → Search σ → τ → Except Fault (Run σ τ)
  | 0, s, condition => .ok ⟨.unfinished, s, condition⟩
  | rounds + 1, s, condition => do
    let run ← s.roundGuarded level condition
    match run.verdict with
    | .unfinished => solveWithinGuarded level rounds run.search run.condition
    | _ => return run

end CardinalitySearch.Search
