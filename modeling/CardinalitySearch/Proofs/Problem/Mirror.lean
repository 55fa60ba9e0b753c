/-
CardinalitySearch.Proofs.Problem.Mirror — problems with some polarities reversed.

Let `S` be a set of propositions.  The mirror image of a literal over one of them
has the other polarity, and the mirror image of an assignment has the other
values on them.  A literal and its image are equally true under an assignment
and its image, so constraints have the same numbers of true literals.  The
weight of a proposition in `S` changes its sign, and as its value changes too,
a flip changes the counts of the image as it does those of the original.

The image of a problem is built by the same operations with the polarity of
every literal over `S` reversed (`build_mirror`).  In an expression that
concerns the names whose numbers are in `S`.  A name keeps its number, so these
are known from the draft at the end, whenever the expression is read.
-/
import CardinalitySearch.Proofs.Expression.Printing
import CardinalitySearch.Proofs.Problem.Numbering
import CardinalitySearch.Proofs.Satisfaction.Gain

namespace CardinalitySearch

variable (S : Nat → Bool)

/-! ## 1. Literals and assignments -/

/-- The literal, with the other polarity if it is over a proposition in `S`. -/
def Literal.mirror (l : Literal) : Literal :=
  ⟨l.proposition, l.positive ^^ S l.proposition⟩

@[simp] theorem Literal.proposition_mirror (l : Literal) :
    (l.mirror S).proposition = l.proposition := rfl

theorem Literal.sign_mirror (l : Literal) :
    (l.mirror S).sign = if S l.proposition then -l.sign else l.sign := by
  unfold Literal.mirror Literal.sign
  cases S l.proposition <;> cases l.positive <;> rfl

namespace Assignment

/-- The assignment with the other values on the propositions in `S`. -/
def mirror (a : Assignment) : Assignment :=
  ⟨a.values.mapIdx fun p value => value ^^ S p⟩

@[simp] theorem size_mirror (a : Assignment) : (a.mirror S).size = a.size := by
  simp [mirror, size]

theorem value?_mirror (a : Assignment) (p : Nat) :
    (a.mirror S).value? p = (a.value? p).map (· ^^ S p) := by
  simp [mirror, value?]

theorem value_mirror (a : Assignment) {p : Nat} (h : p < a.size) :
    (a.mirror S).value p = (a.value p ^^ S p) := by
  have h' : p < a.values.size := h
  rw [value, value, value?_mirror]
  simp [value?, h']

theorem toggle_mirror (a : Assignment) (p : Nat) :
    (a.mirror S).toggle p = (a.toggle p).mirror S := by
  refine ext_value? fun q => ?_
  rw [value?_toggle, value?_mirror, value?_mirror, value?_toggle]
  split
  · rw [Option.map_map, Option.map_map]
    refine congrArg (Option.map · (a.value? q)) (funext fun value => ?_)
    simp
  · rfl

/-- A literal and its image are equally true. -/
theorem holds_mirror (a : Assignment) {l : Literal} (h : l.proposition < a.size) :
    (a.mirror S).holds (l.mirror S) = a.holds l := by
  unfold holds Literal.evaluate
  rw [Literal.proposition_mirror, value_mirror S a h, Literal.mirror]
  cases a.value l.proposition <;> cases l.positive <;> cases S l.proposition <;> rfl

theorem countTrue_mirror (a : Assignment) {ls : List Literal}
    (h : ∀ l ∈ ls, l.proposition < a.size) :
    (a.mirror S).countTrue (ls.map (·.mirror S)) = a.countTrue ls := by
  unfold countTrue
  rw [List.countP_map]
  refine List.countP_congr fun l hl => ?_
  rw [Function.comp_apply, holds_mirror S a (h l hl)]

end Assignment

/-! ## 2. Constraints and problems -/

/-- The constraint of the images of the literals. -/
def Constraint.mirror (c : Constraint) : Constraint :=
  { c with literals := c.literals.map (·.mirror S) }

theorem weightIn_mirror (p : Nat) (ls : List Literal) :
    weightIn p (ls.map (·.mirror S)) = if S p then -weightIn p ls else weightIn p ls := by
  induction ls with
  | nil => simp
  | cons l rest ih =>
    rw [List.map_cons, weightIn_cons, weightIn_cons, ih, Literal.sign_mirror,
      Literal.proposition_mirror]
    by_cases hit : l.proposition = p
    · subst hit
      cases S l.proposition
      · simp
      · simp
        omega
    · cases S p <;> simp [hit]

/-- A weighted occurrence of a proposition, which is reversed or not. -/
def WeightedOccurrence.mirror (reversed : Bool) (o : WeightedOccurrence) : WeightedOccurrence :=
  ⟨o.constraint, if reversed then -o.weight else o.weight⟩

/-- Weights and values change together, so the counts change in the same way, if the
weight can be kept with either sign. -/
theorem WeightedOccurrence.change_mirror {A : Arithmetic} {o : WeightedOccurrence}
    (small : A = .words → o.weight.natAbs < 2147483648) (reversed value : Bool) :
    (o.mirror reversed).change (value ^^ reversed) A = o.change value A := by
  have neg : A.neg o.weight = -o.weight := Arithmetic.neg_eq fun words =>
    Word.fits_of_natAbs_lt (by rw [Int.natAbs_neg]; exact small words)
  have twice : A.neg (-o.weight) = o.weight := by
    rw [Arithmetic.neg_eq fun words => Word.fits_of_natAbs_lt (by
      rw [Int.neg_neg]; exact small words), Int.neg_neg]
  unfold change mirror
  cases reversed <;> cases value <;> simp [neg, twice]

theorem Occurrences.entries_mirror (p : Nat) (cs : List Constraint) :
    entries p (cs.map (·.mirror S)) = (entries p cs).map (·.mirror (S p)) := by
  have weight : ∀ c : Constraint,
      (c.mirror S).weight p = if S p then -c.weight p else c.weight p := fun c =>
    weightIn_mirror S p c.literals
  rw [entries_unlimited, entries_unlimited]
  have kept : ∀ c ∈ cs, ((fun c => decide (c.weight p ≠ 0)) ∘ fun c : Constraint => c.mirror S) c
      = decide (c.weight p ≠ 0) := by
    intro c _
    rw [Function.comp_apply, weight]
    cases S p <;> simp
  rw [List.filter_map, List.map_map, List.map_map, List.filter_congr kept]
  refine List.map_congr_left fun c _ => ?_
  show (⟨c.id, (c.mirror S).weight p⟩ : WeightedOccurrence) = _
  rw [weight]
  rfl

namespace Problem

/-- The problem of the images of the constraints. -/
def mirror (P : Problem) : Problem :=
  ofConstraints P.names (P.constraints.map (·.mirror S)) P.arithmetic

variable {P : Problem}

@[simp] theorem propositionCount_mirror (P : Problem) :
    (P.mirror S).propositionCount = P.propositionCount := rfl

@[simp] theorem constraintCount_mirror (P : Problem) :
    (P.mirror S).constraintCount = P.constraintCount := by
  simp [mirror, ofConstraints, constraintCount]

theorem toList_constraints_mirror (P : Problem) :
    (P.mirror S).constraints.toList = P.constraints.toList.map (·.mirror S) := by
  simp [mirror, ofConstraints]

theorem constraint?_mirror (P : Problem) (i : Nat) :
    (P.mirror S).constraint? i = (P.constraint? i).map (·.mirror S) := by
  simp [mirror, ofConstraints, constraint?]

@[simp] theorem accepts_mirror (P : Problem) (i count : Nat) :
    (P.mirror S).accepts i count = P.accepts i count := by
  unfold accepts
  rw [constraint?_mirror]
  cases P.constraint? i <;> rfl

namespace WellFormed

theorem mirror (h : P.WellFormed) : (P.mirror S).WellFormed where
  names := h.names
  ids := by
    have ids := h.ids
    rw [toList_constraints_mirror, constraintCount_mirror, List.map_map]
    exact ids
  admissible d hd := by
    rw [toList_constraints_mirror] at hd
    obtain ⟨c, hc, rfl⟩ := List.mem_map.mp hd
    have admissible := h.admissible c hc
    refine ⟨?_, admissible.atLeast_le_atMost, ?_⟩
    · simpa [Constraint.mirror] using admissible.literals_ne_nil
    · exact List.forall_mem_map.mpr admissible.proposition_lt
  occurrences := rfl
  suits words := by
    have small := h.suits words
    refine ⟨by rw [constraintCount_mirror]; exact small.few, ?_⟩
    rw [toList_constraints_mirror, List.forall_mem_map]
    exact fun c hc => by simpa [Constraint.mirror] using small.short c hc

/-- Both signs of a weight can be kept. -/
theorem natAbs_weight_lt (h : P.WellFormed) {p : Nat} (hp : p < P.propositionCount)
    {o : WeightedOccurrence} (ho : o ∈ (P.occurrencesOf p).weighted.toList)
    (words : P.arithmetic = .words) : o.weight.natAbs < 2147483648 := by
  obtain ⟨c, hc, rfl⟩ := h.exists_of_mem_weighted hp ho
  exact Nat.lt_of_le_of_lt (c.natAbs_weight_le p) ((h.suits words).short c hc)

theorem weighted_occurrencesOf_mirror (h : P.WellFormed) {p : Nat}
    (hp : p < P.propositionCount) :
    ((P.mirror S).occurrencesOf p).weighted.toList
      = (P.occurrencesOf p).weighted.toList.map (·.mirror (S p)) := by
  rw [(h.mirror S).weighted_occurrencesOf hp, h.weighted_occurrencesOf hp,
    toList_constraints_mirror, Occurrences.entries_mirror]

/-- The same constraints are violated. -/
theorem violatedBy_mirror (h : P.WellFormed) {a : Assignment} (size : a.size = P.propositionCount) :
    (P.mirror S).violatedBy (a.mirror S) = P.violatedBy a := by
  have same : ∀ c ∈ P.constraints.toList,
      ((fun c => !c.satisfiedBy (a.mirror S)) ∘ fun c : Constraint => c.mirror S) c
        = !c.satisfiedBy a := by
    intro c hc
    have inside : ∀ l ∈ c.literals, l.proposition < a.size := fun l hl => by
      rw [size]
      exact (h.admissible c hc).proposition_lt l hl
    have count := a.countTrue_mirror S inside
    rw [Function.comp_apply]
    unfold Constraint.satisfiedBy
    rw [Constraint.mirror, count]
    rfl
  unfold violatedBy
  rw [toList_constraints_mirror, List.filter_map, List.map_map, List.filter_congr same]
  rfl

end WellFormed

end Problem

/-! ## 3. Expressions -/

/-- The signed name, with the other sign if its number is in `S`. -/
def SignedName.mirror (ns : Names) (s : SignedName) : SignedName :=
  ⟨s.name, s.positive ^^ (ns.number? s.name).any S⟩

/-- The expression of the images of the signed names. -/
def Expression.mirror (ns : Names) (e : Expression) : Expression :=
  { e with literals := e.literals.map (·.mirror S ns) }

@[simp] theorem Expression.bounds_mirror (ns : Names) (e : Expression) :
    (e.mirror S ns).bounds = e.bounds := by
  simp [Expression.mirror, Expression.bounds]

/-- What has been read can be printed. -/
theorem Expression.Written.printable {e : Expression} {s : List Char} (h : Written e s) :
    e.Printable := by
  obtain ⟨t, literals⟩ := h.writtenLiterals
  refine ⟨literals.ne_nil, literals.isName, ?_⟩
  cases h with
  | clause => simp
  | ranged _ bracketed =>
    rintro least greatest ⟨⟩
    obtain ⟨⟨-, ⟨-, -, -, -, small⟩, -⟩, ⟨-, ⟨-, -, -, -, small'⟩, -⟩⟩ := bracketed
    exact ⟨small, small'⟩

theorem Expression.Printable.mirror (ns : Names) {e : Expression} (h : e.Printable) :
    (e.mirror S ns).Printable where
  literals_ne_nil := by simpa [Expression.mirror] using h.literals_ne_nil
  isName := List.forall_mem_map.mpr h.isName
  words := h.words

/-! ## 4. Drafts -/

namespace Draft

/-- The draft of the images of the constraints. -/
def mirror (d : Draft) : Draft :=
  ⟨d.names, d.constraints.map (·.mirror S)⟩

theorem push_mirror (d : Draft) (literals : List Literal) (atLeast atMost : Nat) :
    (d.mirror S).push (literals.map (·.mirror S)) atLeast atMost
      = (d.push literals atLeast atMost).mirror S := by
  simp [push_eq, mirror, Constraint.mirror]

theorem objection?_mirror (d : Draft) (literals : List Literal) (atLeast atMost : Nat) :
    (d.mirror S).objection? (literals.map (·.mirror S)) atLeast atMost
      = d.objection? literals atLeast atMost := by
  unfold objection?
  rw [List.isEmpty_map, List.find?_map, Option.map_map]
  rfl

theorem addConstraint_mirror (d : Draft) (literals : List Literal) (atLeast atMost : Nat) :
    ((d.mirror S).addConstraint (literals.map (·.mirror S)) atLeast atMost).2
      = (d.addConstraint literals atLeast atMost).2.mirror S := by
  unfold addConstraint
  rw [objection?_mirror]
  split
  · rfl
  · exact push_mirror S d literals atLeast atMost

/-- The images of signed names denote the images of their literals. -/
theorem internLiterals_mirror {ns : Names} (ss : List SignedName) :
    ∀ {d : Draft}, (∀ name p, (d.internLiterals ss).2.proposition? name = some p →
        ns.number? name = some p) →
      (d.mirror S).internLiterals (ss.map (·.mirror S ns))
        = ((d.internLiterals ss).1.map (·.mirror S), (d.internLiterals ss).2.mirror S) := by
  induction ss with
  | nil => exact fun _ => rfl
  | cons s rest ih =>
    intro d known
    rw [internLiterals_cons] at known
    -- the number given now is the one that the name has at the end
    have number : ns.number? s.name = some (d.intern s.name).1 :=
      known _ _ (proposition?_internLiterals rest (d.names.number?_intern s.name))
    have interned : (d.mirror S).intern (s.mirror S ns).name
        = ((d.intern s.name).1, (d.intern s.name).2.mirror S) := rfl
    rw [List.map_cons, internLiterals_cons, internLiterals_cons, interned, ih known, List.map_cons]
    simp [SignedName.mirror, Literal.mirror, number]

/-- Operations that are the same up to the polarities of literals over `S`.  The
names have their numbers from `ns`. -/
inductive Step.Mirrors (ns : Names) : Step → Step → Prop where
  | intern (name : String) : Mirrors ns (.intern name) (.intern name)
  | lookUp (name : String) : Mirrors ns (.lookUp name) (.lookUp name)
  | addClause (literals : List Literal) :
      Mirrors ns (.addClause literals) (.addClause (literals.map (·.mirror S)))
  | addConstraint (literals : List Literal) (atLeast atMost : Nat) :
      Mirrors ns (.addConstraint literals atLeast atMost)
        (.addConstraint (literals.map (·.mirror S)) atLeast atMost)
  /-- Either both texts are refused or the one is read as the image of the other. -/
  | parse {text text' : String}
      (read : (Expression.parse text'.toList).toOption
        = (Expression.parse text.toList).toOption.map (·.mirror S ns)) :
      Mirrors ns (.parse text) (.parse text')

/-- Every operation has an image. -/
theorem Step.exists_mirrors (ns : Names) (step : Step) : ∃ step', Mirrors S ns step step' := by
  cases step with
  | intern name => exact ⟨_, .intern name⟩
  | lookUp name => exact ⟨_, .lookUp name⟩
  | addClause literals => exact ⟨_, .addClause literals⟩
  | addConstraint literals atLeast atMost => exact ⟨_, .addConstraint literals atLeast atMost⟩
  | parse text =>
    cases read : Expression.parse text.toList with
    | error cause => exact ⟨.parse text, .parse (by rw [read]; rfl)⟩
    | ok e =>
      have written := (Expression.parse_eq_ok_iff _ e).mp read
      have printed := (written.printable.mirror S ns).written_text
      refine ⟨.parse (e.mirror S ns).text, .parse ?_⟩
      rw [read, (Expression.parse_eq_ok_iff _ _).mpr printed]
      rfl

theorem exists_mirrors (ns : Names) (steps : List Step) :
    ∃ steps', List.Forall₂ (Step.Mirrors S ns) steps steps' := by
  induction steps with
  | nil => exact ⟨[], .nil⟩
  | cons step rest ih =>
    obtain ⟨step', first⟩ := step.exists_mirrors S ns
    obtain ⟨rest', others⟩ := ih
    exact ⟨step' :: rest', .cons first others⟩

/-- The image of an operation does to the image of a draft what the operation does
to the draft. -/
theorem perform_mirror {ns : Names} {step step' : Step} (mirrors : step.Mirrors S ns step')
    {d : Draft}
    (known : ∀ name p, (d.perform step).2.proposition? name = some p → ns.number? name = some p) :
    ((d.mirror S).perform step').2 = (d.perform step).2.mirror S := by
  cases mirrors with
  | intern name => rfl
  | lookUp name => rfl
  | addClause literals =>
    have added := addConstraint_mirror S d literals 1 literals.length
    simpa [perform, addClause] using added
  | addConstraint literals atLeast atMost => exact addConstraint_mirror S d literals atLeast atMost
  | @parse text text' read =>
    rw [snd_perform_parse] at known ⊢
    rw [snd_perform_parse]
    cases first : Expression.parse text.toList with
    | error cause =>
      rw [first] at read
      cases second : Expression.parse text'.toList with
      | error cause' => rw [parseExpression, parseExpression, first, second]
      | ok e' => simp [second, Except.toOption] at read
    | ok e =>
      rw [first] at read
      cases second : Expression.parse text'.toList with
      | error cause' => simp [second, Except.toOption] at read
      | ok e' =>
        simp only [second, Except.toOption, Option.map_some, Option.some.injEq] at read
        subst read
        rw [snd_parseExpression_of_ok first] at known ⊢
        rw [snd_parseExpression_of_ok second]
        have names : (d.addExpression e).2.names = (d.internLiterals e.literals).2.names :=
          names_addConstraint _ _ _ _
        have interned := @internLiterals_mirror S ns e.literals d
          fun name p number => known name p (by rw [proposition?, names]; exact number)
        have mirrored : ((d.mirror S).addExpression (e.mirror S ns)).2
            = (((d.mirror S).internLiterals (e.literals.map (·.mirror S ns))).2.addConstraint
                ((d.mirror S).internLiterals (e.literals.map (·.mirror S ns))).1
                (e.mirror S ns).bounds.1 (e.mirror S ns).bounds.2).2 := rfl
        rw [mirrored, interned, Expression.bounds_mirror]
        exact addConstraint_mirror S _ _ _ _

/-- The image of a sequence of operations builds the image of the draft. -/
theorem performAll_mirror {ns : Names} {steps steps' : List Step}
    (mirrors : List.Forall₂ (Step.Mirrors S ns) steps steps') :
    ∀ {d : Draft}, (∀ name p, (d.performAll steps).2.proposition? name = some p →
        ns.number? name = some p) →
      ((d.mirror S).performAll steps').2 = (d.performAll steps).2.mirror S := by
  induction mirrors with
  | nil => exact fun _ => rfl
  | @cons step step' rest rest' first _ ih =>
    intro d known
    have later := extends_performAll rest (d.perform step).2
    have here := perform_mirror S first fun name p number =>
      known name p (later.number name p number)
    have next : ((d.mirror S).performAll (step' :: rest')).2
        = (((d.mirror S).perform step').2.performAll rest').2 := rfl
    rw [next, here]
    exact ih known

end Draft

/-- The image of a problem is built by the images of the operations. -/
theorem Draft.build_mirror {steps steps' : List Draft.Step}
    (mirrors : List.Forall₂ (Draft.Step.Mirrors S (ofSteps steps).names) steps steps') :
    (ofSteps steps').build = (ofSteps steps).build.mirror S := by
  have built := @performAll_mirror S _ _ _ mirrors {} fun _ _ number => number
  have empty : ({} : Draft).mirror S = {} := by simp [mirror]
  rw [empty] at built
  rw [ofSteps, built]
  rfl

end CardinalitySearch
