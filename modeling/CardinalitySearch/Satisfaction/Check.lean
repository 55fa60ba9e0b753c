/-
CardinalitySearch.Satisfaction.Check — does a state agree with its assignment?

Every constraint is counted anew.  The numbers are compared before the
memberships of the violated set, over all constraints each time: a wrong
number usually explains a wrong membership and is the more useful report.  The
first disagreement in the order of the constraints is reported.

The check looks at a snapshot, which need not come from a search and may lack
entries.  Where an entry is missing the check is undefined.
-/
import CardinalitySearch.Satisfaction.Basic

namespace CardinalitySearch

/-- What a state claims about a problem. -/
structure Snapshot where
  /-- The assignment. -/
  assignment : Assignment
  /-- The number of true literals of each constraint. -/
  counts : Array Nat
  /-- For each constraint whether it is in the violated set. -/
  members : Array Bool
  /-- The literal of the latest flip, for the report. -/
  lastFlip : Option Literal
deriving DecidableEq

/-- A disagreement. -/
inductive Inconsistency where
  /-- A number of true literals differs from a recount. -/
  | staleCount (constraint cached actual : Nat) (lastFlip : Option Literal)
  /-- A constraint is in the violated set though it is satisfied, or missing
  though it is not. -/
  | wrongMembership (constraint : Nat) (isMember : Bool) (lastFlip : Option Literal)
deriving DecidableEq

namespace Inconsistency

/-- The wording of the latest flip. -/
def flipText : Option Literal → String
  | none => "none"
  | some l => l.text

/-- The wording of a disagreement. -/
def message : Inconsistency → String
  | .staleCount constraint cached actual lastFlip =>
    "constraint " ++ constraintText constraint ++ " caches " ++ toString cached
      ++ " true literals but has " ++ toString actual ++ " (last flip: " ++ flipText lastFlip
      ++ ")"
  | .wrongMembership constraint isMember lastFlip =>
    "constraint " ++ constraintText constraint
      ++ " has the wrong membership in the unsatisfied set (member: " ++ toString isMember
      ++ ", last flip: " ++ flipText lastFlip ++ ")"

/-- What is reported when the disagreement is found. -/
def event : Inconsistency → Event
  | .staleCount constraint cached actual _ => .staleCount constraint cached actual
  | .wrongMembership constraint _ _ => .wrongMembership constraint

end Inconsistency

/-- The outcome of a check. -/
inductive CheckResult where
  /-- Everything agrees. -/
  | consistent
  /-- The first disagreement. -/
  | inconsistent (reason : Inconsistency)
  /-- An entry that is needed is missing. -/
  | undefined
deriving DecidableEq

namespace Snapshot

/-- Compares the numbers of true literals of the constraints with a recount. -/
def checkCounts (s : Snapshot) : List Constraint → CheckResult
  | [] => .consistent
  | c :: rest =>
    match s.assignment.countTrue? c.literals, s.counts[c.id]? with
    | some actual, some cached =>
      if actual = cached then s.checkCounts rest
      else .inconsistent (.staleCount c.id cached actual s.lastFlip)
    | _, _ => .undefined

/-- Compares the memberships of the constraints with their numbers. -/
def checkMembers (s : Snapshot) : List Constraint → CheckResult
  | [] => .consistent
  | c :: rest =>
    match s.counts[c.id]?, s.members[c.id]? with
    | some cached, some isMember =>
      if isMember = !c.accepts cached then s.checkMembers rest
      else .inconsistent (.wrongMembership c.id isMember s.lastFlip)
    | _, _ => .undefined

/-- Compares a snapshot with the constraints of a problem. -/
def check (s : Snapshot) (P : Problem) : CheckResult :=
  match s.checkCounts P.constraints.toList with
  | .consistent => s.checkMembers P.constraints.toList
  | result => result

end Snapshot

namespace CheckResult

/-- What is reported about the outcome. -/
def events : CheckResult → List Event
  | .inconsistent reason => [reason.event]
  | .consistent | .undefined => []

end CheckResult

namespace Satisfaction

/-- What the state claims about a problem. -/
def snapshot (s : Satisfaction) (P : Problem) : Snapshot where
  assignment := s.assignment
  counts := s.counts
  members := ((List.range P.constraintCount).map s.violated.contains).toArray
  lastFlip := s.lastFlip.map (·.literal)

/-- Compares the state with its assignment. -/
def check (s : Satisfaction) (P : Problem) : CheckResult :=
  (s.snapshot P).check P

end Satisfaction

end CardinalitySearch
