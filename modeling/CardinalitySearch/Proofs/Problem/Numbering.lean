/-
CardinalitySearch.Proofs.Problem.Numbering — the numbers that a draft gives out.

Whatever is asked of a draft, in whatever order and with whatever failures in
between, its names are those that have been interned, each once, numbered from
zero in the order in which they first came; its constraints are numbered by
their positions; and no number is ever taken back or changed.  A problem takes
all of this from the draft, and its occurrence table fits it: there is one
entry for each proposition, and each constraint that an entry lists exists.

`perform_cases` says once what an operation can do: it interns names, and then
it may append a constraint.  An operation that fails does the first at most.
What follows from it, the order of the names (`names_performAll`) and the
permanence of the numbers (`Extends`), never looks at the operations again.
-/
import CardinalitySearch.Proofs.Expression.Adding
import CardinalitySearch.Proofs.Problem.Polarity

namespace CardinalitySearch

/-! ## 1. Names by their numbers -/

/-- The names are those interned, numbered from zero in the order in which each was
interned first, and looking up a name or a number finds the other. -/
structure Names.Numbered (ns : Names) (interned : List String) : Prop where
  order : ns.toList = interned.eraseDups
  distinct : ns.toList.Nodup
  lookUp : ∀ name p, ns.number? name = some p ↔ ns.name? p = some name
  numbers : ∀ p, p < ns.size ↔ ∃ name, ns.number? name = some p
  known : ∀ name, (∃ p, ns.number? name = some p) ↔ name ∈ interned

theorem Names.Coherent.nodup {ns : Names} (h : ns.Coherent) : ns.toList.Nodup := by
  have number : ∀ {i : Nat} {name : String}, ns.toList[i]? = some name →
      ns.number? name = some i := fun stands => (h _ _).mpr (ns.getElem?_toList _ ▸ stands)
  refine List.pairwise_iff_getElem.mpr fun i j hi hj before same => ?_
  have first := number (List.getElem?_eq_getElem hi)
  have second := number (List.getElem?_eq_getElem hj)
  rw [same, second, Option.some.injEq] at first
  exact Nat.ne_of_gt before first

theorem Names.Coherent.numbered {ns : Names} (h : ns.Coherent) {interned : List String}
    (order : ns.toList = interned.eraseDups) : ns.Numbered interned where
  order := order
  distinct := h.nodup
  lookUp := h
  numbers p := by
    simp only [h _ p]
    exact ⟨fun inside => ⟨_, Array.getElem?_eq_getElem inside⟩,
      fun ⟨_, stands⟩ => (Array.getElem?_eq_some_iff.mp stands).1⟩
  known name := by rw [← h.mem_toList_iff, order, List.mem_eraseDups]

namespace Draft

variable {d : Draft}

/-! ## 2. What an operation can do -/

/-- The names that an operation interns, from left to right.  A text that can be read
has its names interned even if its range is refused. -/
def Step.interned : Step → List String
  | .intern name => [name]
  | .parse text =>
    match Expression.parse text.toList with
    | .ok e => e.literals.map (·.name)
    | .error _ => []
  | .lookUp _ | .addClause _ | .addConstraint _ _ _ => []

theorem addConstraint_cases (d : Draft) (literals : List Literal) (atLeast atMost : Nat) :
    (d.addConstraint literals atLeast atMost).2 = d ∨
      (d.addConstraint literals atLeast atMost).2 = d.push literals atLeast atMost := by
  unfold addConstraint
  split
  · exact .inl rfl
  · exact .inr rfl

/-- Constraints add no names. -/
theorem names_addConstraint (d : Draft) (literals : List Literal) (atLeast atMost : Nat) :
    (d.addConstraint literals atLeast atMost).2.names = d.names := by
  rcases d.addConstraint_cases literals atLeast atMost with same | pushed
  · rw [same]
  · rw [pushed]
    rfl

/-- An operation interns its names, and then it may append a constraint. -/
theorem perform_cases (d : Draft) (step : Step) :
    ∃ ss : List SignedName, ss.map (·.name) = step.interned ∧
      ((d.perform step).2 = (d.internLiterals ss).2 ∨
        ∃ literals atLeast atMost,
          (d.perform step).2 = (d.internLiterals ss).2.push literals atLeast atMost) := by
  cases step with
  | intern name => exact ⟨[⟨name, true⟩], rfl, .inl rfl⟩
  | lookUp name => exact ⟨[], rfl, .inl rfl⟩
  | addClause literals =>
    exact ⟨[], rfl, (d.addConstraint_cases _ _ _).imp_right fun h => ⟨_, _, _, h⟩⟩
  | addConstraint literals atLeast atMost =>
    exact ⟨[], rfl, (d.addConstraint_cases _ _ _).imp_right fun h => ⟨_, _, _, h⟩⟩
  | parse text =>
    rw [snd_perform_parse]
    cases read : Expression.parse text.toList with
    | error cause =>
      refine ⟨[], ?_, .inl ?_⟩
      · rw [Step.interned, read, List.map_nil]
      · rw [parseExpression, read]
        rfl
    | ok e =>
      refine ⟨e.literals, ?_, ?_⟩
      · rw [Step.interned, read]
      · rw [snd_parseExpression_of_ok read]
        exact (addConstraint_cases _ _ _ _).imp_right fun h => ⟨_, _, _, h⟩

theorem performAll_append (first second : List Step) :
    ∀ d : Draft, (d.performAll (first ++ second)).2
      = ((d.performAll first).2.performAll second).2 := by
  induction first with
  | nil => exact fun d => rfl
  | cons step rest ih => exact fun d => ih (d.perform step).2

/-! ## 3. The names after a sequence of operations -/

theorem names_perform (h : d.WellFormed) (step : Step) :
    (d.perform step).2.names.toList
      = d.names.toList ++ newNames d.names.toList step.interned := by
  obtain ⟨ss, names, interned | ⟨literals, atLeast, atMost, pushed⟩⟩ := d.perform_cases step
  · rw [interned, names_internLiterals ss h.names, names]
  · rw [pushed, push_eq, names_internLiterals ss h.names, names]

/-- The names that come in follow those that are there, each where it comes first. -/
theorem names_performAll (steps : List Step) :
    ∀ {d : Draft}, d.WellFormed →
      (d.performAll steps).2.names.toList
        = d.names.toList ++ newNames d.names.toList (steps.flatMap Step.interned) := by
  induction steps with
  | nil => intro d _; simp [performAll, newNames, List.removeAll]
  | cons step rest ih =>
    intro d h
    have next : (d.performAll (step :: rest)).2 = ((d.perform step).2.performAll rest).2 := rfl
    rw [next, ih (h.perform step), names_perform h, List.flatMap_cons, newNames_append,
      List.append_assoc]

/-! ## 4. Numbers that have been given -/

/-- Every number of one draft is the same in another. -/
structure Extends (d d' : Draft) : Prop where
  number : ∀ name p, d.proposition? name = some p → d'.proposition? name = some p
  constraint : ∀ (i : Nat) c, d.constraints[i]? = some c → d'.constraints[i]? = some c

theorem Extends.refl (d : Draft) : d.Extends d :=
  ⟨fun _ _ h => h, fun _ _ h => h⟩

theorem Extends.trans {d d' d'' : Draft} (h : d.Extends d') (h' : d'.Extends d'') :
    d.Extends d'' :=
  ⟨fun name p known => h'.number name p (h.number name p known),
    fun i c stands => h'.constraint i c (h.constraint i c stands)⟩

theorem extends_internLiterals (d : Draft) (ss : List SignedName) :
    d.Extends (d.internLiterals ss).2 where
  number _ _ := proposition?_internLiterals ss
  constraint i c stands := by rw [constraints_internLiterals, stands]

theorem extends_push (d : Draft) (literals : List Literal) (atLeast atMost : Nat) :
    d.Extends (d.push literals atLeast atMost) where
  number _ _ known := known
  constraint i c stands := by
    have inside : i < d.constraints.size := (Array.getElem?_eq_some_iff.mp stands).1
    rw [push_eq]
    dsimp only
    rw [Array.getElem?_push_lt inside, ← stands, Array.getElem?_eq_getElem inside]

theorem extends_perform (d : Draft) (step : Step) : d.Extends (d.perform step).2 := by
  obtain ⟨ss, -, interned | ⟨literals, atLeast, atMost, pushed⟩⟩ := d.perform_cases step
  · rw [interned]
    exact d.extends_internLiterals ss
  · rw [pushed]
    exact (d.extends_internLiterals ss).trans (extends_push _ _ _ _)

/-- Nothing that is asked of a draft later changes a number. -/
theorem extends_performAll (steps : List Step) :
    ∀ d : Draft, d.Extends (d.performAll steps).2 := by
  induction steps with
  | nil => exact Extends.refl
  | cons step rest ih => exact fun d => (d.extends_perform step).trans (ih _)

end Draft

/-! ## 5. Problems -/

namespace Problem

/-- Every number that occurs in a problem is that of a constraint or of a proposition. -/
structure InBounds (P : Problem) : Prop where
  constraints : ∀ i c, P.constraint? i = some c → c.id = i ∧ c.Admissible P.propositionCount
  ids : ∀ c ∈ P.constraints.toList, c.id < P.constraintCount
  table : P.occurrences.size = P.propositionCount
  listed : ∀ p < P.propositionCount, ∀ sign,
    ∀ i ∈ ((P.occurrencesOf p).ofSign sign).toList, i < P.constraintCount
  weighted : ∀ p < P.propositionCount,
    ∀ o ∈ (P.occurrencesOf p).weighted.toList, o.constraint < P.constraintCount

theorem Indexed.inBounds {P : Problem} (h : P.Indexed) : P.InBounds where
  constraints i c found := by
    obtain ⟨hc, id⟩ := h.constraint?_eq_some_iff.mp found
    exact ⟨id, h.admissible c hc⟩
  ids _ hc := h.id_lt hc
  table := by rw [h.occurrences, Occurrences.size_index]
  listed p hp sign i hi := by
    rw [h.ofSign_occurrencesOf hp, Occurrences.containing, List.mem_map] at hi
    obtain ⟨c, hc, rfl⟩ := hi
    exact h.id_lt (List.mem_of_mem_filter hc)
  weighted p hp o ho := by
    rw [h.weighted_eq_entries hp, Occurrences.entries, List.mem_map] at ho
    obtain ⟨c, hc, rfl⟩ := ho
    exact h.id_lt (List.mem_of_mem_filter hc)

end Problem

/-! ## 6. Sequences of operations -/

namespace Draft

theorem ofSteps_append (steps more : List Step) :
    ofSteps (steps ++ more) = ((ofSteps steps).performAll more).2 :=
  performAll_append steps more {}

theorem names_ofSteps (steps : List Step) :
    (ofSteps steps).names.toList = (steps.flatMap Step.interned).eraseDups := by
  rw [ofSteps, names_performAll steps wellFormed_empty]
  simp [newNames, List.removeAll, Names.toList]

/-- The number that interning answers is the number of the name from then on. -/
theorem exists_number_intern (steps more : List Step) (name : String) :
    ∃ p, ((ofSteps steps).perform (.intern name)).1 = .proposition (some p) ∧
      (ofSteps (steps ++ .intern name :: more)).proposition? name = some p := by
  refine ⟨((ofSteps steps).names.intern name).1, rfl, ?_⟩
  rw [ofSteps_append]
  exact (extends_performAll more ((ofSteps steps).intern name).2).number name _
    ((ofSteps steps).names.number?_intern name)

/-- After any sequence of operations, whether or not they succeed, the names are those
interned, numbered from zero in the order of their first appearance; no operation
that follows changes the number of a name or of a constraint; and a constraint has
the number of its position, literals, a range that is not empty, and only
propositions that exist.  The problem that is built has the same names and
constraints, and every number in it is in bounds. -/
theorem ofSteps_numbered (steps : List Step) :
    let d := ofSteps steps
    d.names.Numbered (steps.flatMap Step.interned) ∧
    (∀ more, d.Extends (ofSteps (steps ++ more))) ∧
    (∀ name more, ∃ p, (d.perform (.intern name)).1 = .proposition (some p) ∧
      (ofSteps (steps ++ .intern name :: more)).proposition? name = some p) ∧
    (∀ (i : Nat) c, d.constraints[i]? = some c → c.id = i ∧ c.Admissible d.names.size) ∧
    d.build.names = d.names ∧ d.build.constraints = d.constraints ∧ d.build.InBounds := by
  intro d
  have wellFormed : d.WellFormed := wellFormed_ofSteps steps
  have bounds : d.build.InBounds := (Problem.indexed_build wellFormed .unlimited).inBounds
  refine ⟨wellFormed.names.numbered (names_ofSteps steps), ?_, ?_, bounds.constraints, rfl, rfl,
    bounds⟩
  · intro more
    rw [ofSteps_append]
    exact extends_performAll more d
  · exact fun name more => exists_number_intern steps more name

/-- Operations of every kind, four of which fail, one of these for an inverted range. -/
def sampleSteps : List Step :=
  [.parse "b | !a", .addClause [⟨7, true⟩], .intern "c", .parse "[2,1] d | a", .addClause [],
    .lookUp "e", .addConstraint [⟨2, false⟩, ⟨0, true⟩, ⟨2, true⟩] 1 2, .parse "e | | f"]

theorem ofSteps_numbered_sample :
    (ofSteps sampleSteps).names.toList = ["b", "a", "c", "d"] ∧
      (¬∃ p, (ofSteps sampleSteps).proposition? "e" = some p) ∧
      (ofSteps (sampleSteps ++ [.parse "[1,0] e | d"])).proposition? "d" = some 3 ∧
      (∃ c, (ofSteps sampleSteps).constraints[1]? = some c ∧ c.id = 1 ∧ c.Admissible 4) ∧
      ∀ i ∈ ((ofSteps sampleSteps).build.occurrencesOf 2).negative.toList, i < 2 := by
  obtain ⟨names, later, -, stored, -, -, bounds⟩ := ofSteps_numbered sampleSteps
  refine ⟨names.order.trans (by decide), ?_, ?_, ?_, ?_⟩
  · exact fun found => absurd ((names.known "e").mp found) (by decide)
  · exact (later _).number "d" 3 (by decide)
  · have found : (ofSteps sampleSteps).constraints[1]?
        = some ⟨1, [⟨2, false⟩, ⟨0, true⟩, ⟨2, true⟩], 1, 2⟩ := by decide
    exact ⟨_, found, stored 1 _ found⟩
  · exact bounds.listed 2 (by decide) false

end Draft

end CardinalitySearch
