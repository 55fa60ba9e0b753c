/-
CardinalitySearch.Proofs.Expression.Adding — what a written constraint does to a draft.

Adding an expression has two stages: its names are interned from left to right,
and then its constraint is added.  `names_internLiterals` says what the first
stage leaves: behind the names that were there the new ones follow, each once,
in the order of their first appearance.  The second stage can only fail for an
inverted range (`addExpression_eq`), and by then the names are there.

Two statements about reading a text follow.  `parseExpression_accepts_written`
is about success: it comes exactly for the texts of the grammar whose range is
not inverted, and appends one constraint.  `parseExpression_error_effect` is
about failure: an inverted range leaves the new names of the expression behind,
and every other error leaves the draft as it was.
-/
import CardinalitySearch.Proofs.Expression.Grammar
import CardinalitySearch.Proofs.Problem.WellFormed

namespace CardinalitySearch

/-! ## 1. Names -/

namespace Names

variable {ns : Names}

theorem getElem?_toList (ns : Names) (p : Nat) : ns.toList[p]? = ns.name? p := by
  simp [toList, name?]

theorem Coherent.mem_toList_iff (h : ns.Coherent) (name : String) :
    name ∈ ns.toList ↔ ∃ p, ns.number? name = some p := by
  rw [List.mem_iff_getElem?]
  simp only [getElem?_toList, h name]

/-- A new name goes to the end of the list. -/
theorem Coherent.toList_intern (h : ns.Coherent) (name : String) :
    (ns.intern name).2.toList = if name ∈ ns.toList then ns.toList else ns.toList ++ [name] := by
  cases known : ns.number? name with
  | some p =>
    rw [intern_of_number?_eq_some known, if_pos ((h.mem_toList_iff name).mpr ⟨p, known⟩)]
  | none =>
    have absent : name ∉ ns.toList := by
      rw [h.mem_toList_iff, known]
      simp
    rw [intern_of_number?_eq_none known, if_neg absent]
    simp [toList]

/-- A name keeps its number. -/
theorem number?_intern_of_eq_some {name : String} {p : Nat} (h : ns.number? name = some p)
    (other : String) : (ns.intern other).2.number? name = some p := by
  cases known : ns.number? other with
  | some q => rwa [intern_of_number?_eq_some known]
  | none =>
    have apart : other ≠ name := by
      rintro rfl
      rw [known] at h
      simp at h
    rw [intern_of_number?_eq_none known]
    simpa [number?, Std.TreeMap.getElem?_insert, apart] using h

end Names

namespace Draft

/-! ## 2. Interning the names of an expression -/

/-- A literal is over the proposition with the name of a signed name, and has its
sign. -/
def Denotes (d : Draft) (l : Literal) (s : SignedName) : Prop :=
  d.proposition? s.name = some l.proposition ∧ l.positive = s.positive

/-- The names among those written that are not known, each where it first appears. -/
def newNames (known written : List String) : List String :=
  (written.removeAll known).eraseDups

theorem internLiterals_cons (d : Draft) (s : SignedName) (rest : List SignedName) :
    d.internLiterals (s :: rest)
      = (⟨(d.intern s.name).1, s.positive⟩ :: ((d.intern s.name).2.internLiterals rest).1,
          ((d.intern s.name).2.internLiterals rest).2) :=
  rfl

theorem constraints_internLiterals (ss : List SignedName) :
    ∀ d : Draft, (d.internLiterals ss).2.constraints = d.constraints := by
  induction ss with
  | nil => exact fun d => rfl
  | cons s rest ih =>
    intro d
    rw [internLiterals_cons, ih]
    rfl

theorem mem_newNames {known written : List String} {name : String} :
    name ∈ newNames known written ↔ name ∈ written ∧ name ∉ known := by
  simp [newNames, List.removeAll]

theorem newNames_cons_of_mem {known : List String} {name : String} (h : name ∈ known)
    (written : List String) : newNames known (name :: written) = newNames known written := by
  simp [newNames, List.removeAll, h]

theorem newNames_cons_of_not_mem {known : List String} {name : String} (h : name ∉ known)
    (written : List String) :
    newNames known (name :: written) = name :: newNames (known ++ [name]) written := by
  have first : (name :: written).removeAll known = name :: written.removeAll known := by
    simp [List.removeAll, h]
  have others : (written.removeAll known).filter (fun other => !other == name)
      = written.removeAll (known ++ [name]) := by
    simp only [List.removeAll, List.filter_filter]
    refine List.filter_congr fun other _ => ?_
    by_cases same : other = name <;> simp [same]
  rw [newNames, newNames, first, List.eraseDups_cons, others]

/-- What has been new is known afterwards. -/
theorem newNames_append (first second : List String) :
    ∀ known : List String, newNames known (first ++ second)
      = newNames known first ++ newNames (known ++ newNames known first) second := by
  induction first with
  | nil => intro known; simp [newNames, List.removeAll]
  | cons name rest ih =>
    intro known
    rw [List.cons_append]
    by_cases h : name ∈ known
    · rw [newNames_cons_of_mem h, newNames_cons_of_mem h, ih]
    · rw [newNames_cons_of_not_mem h, newNames_cons_of_not_mem h, ih, List.cons_append,
        List.append_assoc, List.singleton_append]

/-- The new names follow the known ones in the order of their first appearance. -/
theorem names_internLiterals (ss : List SignedName) :
    ∀ {d : Draft}, d.names.Coherent →
      (d.internLiterals ss).2.names.toList
        = d.names.toList ++ newNames d.names.toList (ss.map (·.name)) := by
  induction ss with
  | nil => intro d _; simp [internLiterals, newNames, List.removeAll]
  | cons s rest ih =>
    intro d h
    have interned : (d.intern s.name).2.names = (d.names.intern s.name).2 := rfl
    have coherent : (d.intern s.name).2.names.Coherent := h.intern s.name
    rw [internLiterals_cons, ih coherent, interned, h.toList_intern, List.map_cons]
    -- a new name is known from here on, so it is not new again further on
    split
    · next known => rw [newNames_cons_of_mem known]
    · next new => rw [newNames_cons_of_not_mem new, List.append_assoc, List.singleton_append]

theorem proposition?_internLiterals (ss : List SignedName) :
    ∀ {d : Draft} {name : String} {p : Nat}, d.proposition? name = some p →
      (d.internLiterals ss).2.proposition? name = some p := by
  induction ss with
  | nil => exact fun h => h
  | cons s rest ih => exact fun h => ih (Names.number?_intern_of_eq_some h s.name)

/-- The literals are over the propositions of their names. -/
theorem denotes_internLiterals (ss : List SignedName) :
    ∀ d : Draft, List.Forall₂ (d.internLiterals ss).2.Denotes (d.internLiterals ss).1 ss := by
  induction ss with
  | nil => exact fun d => .nil
  | cons s rest ih =>
    intro d
    have numbered : (d.intern s.name).2.proposition? s.name = some (d.intern s.name).1 :=
      d.names.number?_intern s.name
    rw [internLiterals_cons]
    exact .cons ⟨proposition?_internLiterals rest numbered, rfl⟩ (ih _)

/-- Known names leave the draft as it is. -/
theorem internLiterals_of_known (ss : List SignedName) :
    ∀ {d : Draft}, d.names.Coherent → (∀ s ∈ ss, s.name ∈ d.names.toList) →
      (d.internLiterals ss).2 = d := by
  induction ss with
  | nil => exact fun _ _ => rfl
  | cons s rest ih =>
    intro d h known
    rw [List.forall_mem_cons] at known
    obtain ⟨p, number⟩ := (h.mem_toList_iff s.name).mp known.1
    have same : (d.intern s.name).2 = d := by
      rw [intern_eq, Names.intern_of_number?_eq_some number]
    rw [internLiterals_cons, same]
    exact ih h known.2

/-- Only known names leave the draft as it is. -/
theorem internLiterals_eq_self_iff {d : Draft} (h : d.names.Coherent) (ss : List SignedName) :
    (d.internLiterals ss).2 = d ↔ ∀ s ∈ ss, s.name ∈ d.names.toList := by
  constructor
  · intro same s hs
    have names := names_internLiterals ss h
    rw [same, List.self_eq_append_right] at names
    refine Classical.byContradiction fun absent => ?_
    have new : s.name ∈ newNames d.names.toList (ss.map (·.name)) :=
      mem_newNames.mpr ⟨List.mem_map.mpr ⟨s, hs, rfl⟩, absent⟩
    rw [names] at new
    simp at new
  · exact internLiterals_of_known ss h

/-! ## 3. Adding an expression -/

/-- Against literals whose names have been interned only the range can speak. -/
theorem objection?_internLiterals {d : Draft} (h : d.WellFormed) {ss : List SignedName}
    (nonempty : ss ≠ []) (atLeast atMost : Nat) :
    (d.internLiterals ss).2.objection? (d.internLiterals ss).1 atLeast atMost
      = if atMost < atLeast then some (.invertedRange atLeast atMost) else none := by
  obtain ⟨-, -, inside⟩ := WellFormed.internLiterals ss h
  have literals : (d.internLiterals ss).1 ≠ [] := by
    obtain ⟨s, rest, rfl⟩ := List.exists_cons_of_ne_nil nonempty
    exact List.cons_ne_nil _ _
  have known : ((d.internLiterals ss).1.find? fun l =>
      (d.internLiterals ss).2.names.size ≤ l.proposition) = none := by
    rw [List.find?_eq_none]
    intro l hl
    simpa using inside l hl
  unfold objection?
  rw [if_neg (by simpa using literals), known]
  rfl

/-- An expression with literals can only be refused for an inverted range, and its
names are interned in any case. -/
theorem addExpression_eq {A : Arithmetic} {d : Draft} (h : d.WellFormed) {e : Expression}
    (nonempty : e.literals ≠ []) :
    d.addExpression e A =
      if (e.bounds A).2 < (e.bounds A).1 then
        (.error (.invertedRange (e.bounds A).1 (e.bounds A).2), (d.internLiterals e.literals).2)
      else
        (.ok d.constraints.size,
          (d.internLiterals e.literals).2.push (d.internLiterals e.literals).1
            (e.bounds A).1 (e.bounds A).2) := by
  have added : d.addExpression e A
      = (d.internLiterals e.literals).2.addConstraint (d.internLiterals e.literals).1
          (e.bounds A).1 (e.bounds A).2 := rfl
  rw [added]
  unfold addConstraint
  rw [objection?_internLiterals h nonempty, constraints_internLiterals]
  by_cases inverted : (e.bounds A).2 < (e.bounds A).1
  · simp only [if_pos inverted]
  · simp only [if_neg inverted]

end Draft

/-! ## 4. Reading -/

namespace Expression

theorem Written.bounds_le_iff {e : Expression} {s : List Char} (h : Written e s) :
    e.bounds.1 ≤ e.bounds.2 ↔
      ∀ least greatest, e.range = some (least, greatest) → least ≤ greatest := by
  have nonempty : 1 ≤ e.literals.length := List.length_pos_iff.mpr h.literals_ne_nil
  obtain ⟨range, literals⟩ := e
  cases range with
  | none => simpa [bounds] using nonempty
  | some range =>
    obtain ⟨least, greatest⟩ := range
    simp [bounds]

/-- Only a range that is given can be inverted. -/
theorem Written.eq_of_inverted {e : Expression} {s : List Char} (h : Written e s)
    (inverted : e.bounds.2 < e.bounds.1) : e = ⟨some e.bounds, e.literals⟩ := by
  obtain ⟨range, literals⟩ := e
  cases range with
  | none => exact absurd (h.bounds_le_iff.mpr (by simp)) (Nat.not_le.mpr inverted)
  | some range => rfl

theorem splitRange_ne_refused (text : List Char) (cause : ConstraintError) :
    splitRange text ≠ .error (.refused cause) := by
  unfold splitRange
  split
  · split
    · simp
    · split <;> simp
  · simp

theorem parseLiteral_ne_refused (start : Nat) (place : List Char) (cause : ConstraintError) :
    parseLiteral start place ≠ .error (.refused cause) := by
  unfold parseLiteral
  dsimp only
  split
  · simp
  · split
    · simp
    · split <;> simp

theorem parseLiterals_ne_refused (places : List (List Char)) (cause : ConstraintError) :
    ∀ start, parseLiterals start places ≠ .error (.refused cause) := by
  induction places with
  | nil => intro start; simp [parseLiterals]
  | cons place rest ih =>
    intro start h
    unfold parseLiterals at h
    split at h
    · next failed =>
      obtain rfl := Except.error.inj h
      exact parseLiteral_ne_refused _ _ _ failed
    · split at h
      · next failed =>
        obtain rfl := Except.error.inj h
        exact ih _ failed
      · simp at h

/-- A refusal is never found while reading. -/
theorem parse_ne_refused (text : List Char) (cause : ConstraintError) :
    parse text ≠ .error (.refused cause) := by
  intro h
  unfold parse at h
  split at h
  · next failed =>
    obtain rfl := Except.error.inj h
    exact splitRange_ne_refused _ _ failed
  · split at h
    · simp at h
    · split at h
      · next failed =>
        obtain rfl := Except.error.inj h
        exact parseLiterals_ne_refused _ _ _ failed
      · simp at h

end Expression

namespace Draft

open Expression (Written)

theorem wellFormed_ofSteps (steps : List Step) : (ofSteps steps).WellFormed :=
  WellFormed.performAll steps wellFormed_empty

/-- A text of the grammar is added, unless its range is inverted. -/
theorem parseExpression_of_written {A : Arithmetic} {d : Draft} (h : d.WellFormed)
    {e : Expression} {text : List Char} (written : Written e text) :
    d.parseExpression text A =
      if (e.bounds A).2 < (e.bounds A).1 then
        (.error (.refused (.invertedRange (e.bounds A).1 (e.bounds A).2)),
          (d.internLiterals e.literals).2)
      else
        (.ok d.constraints.size,
          (d.internLiterals e.literals).2.push (d.internLiterals e.literals).1
            (e.bounds A).1 (e.bounds A).2) := by
  unfold parseExpression
  rw [(Expression.parse_eq_ok_iff text e).mpr written]
  dsimp only
  rw [addExpression_eq h written.literals_ne_nil]
  by_cases inverted : (e.bounds A).2 < (e.bounds A).1
  · simp only [if_pos inverted]
  · simp only [if_neg inverted]

/-- Any other text is refused and changes nothing. -/
theorem parseExpression_of_not_written (d : Draft) {A : Arithmetic} {text : List Char}
    (none : ∀ e, ¬ Written e text) :
    ∃ cause, d.parseExpression text A = (.error cause, d) ∧
      ∀ refusal, cause ≠ .refused refusal := by
  cases read : Expression.parse text with
  | ok e => exact absurd ((Expression.parse_eq_ok_iff text e).mp read) (none e)
  | error cause =>
    refine ⟨cause, by rw [parseExpression, read], ?_⟩
    rintro refusal rfl
    exact Expression.parse_ne_refused text refusal read

/-- A text that is read successfully is of the grammar, and its constraint is
appended after its names are interned. -/
theorem exists_written_of_parseExpression {A : Arithmetic} {d : Draft} (h : d.WellFormed)
    {text : List Char} {id : Nat} (ok : (d.parseExpression text A).1 = .ok id) :
    ∃ e, Written e text ∧ (e.bounds A).1 ≤ (e.bounds A).2 ∧ id = d.constraints.size ∧
      (d.parseExpression text A).2
        = (d.internLiterals e.literals).2.push (d.internLiterals e.literals).1
            (e.bounds A).1 (e.bounds A).2 := by
  by_cases readable : ∃ e, Written e text
  · obtain ⟨e, written⟩ := readable
    have effect := parseExpression_of_written (A := A) h written
    by_cases inverted : (e.bounds A).2 < (e.bounds A).1
    · rw [effect, if_pos inverted] at ok
      simp at ok
    · rw [if_neg inverted] at effect
      rw [effect] at ok ⊢
      exact ⟨e, written, Nat.not_lt.mp inverted, (Except.ok.inj ok).symm, rfl⟩
  · obtain ⟨cause, failed, -⟩ := d.parseExpression_of_not_written (not_exists.mp readable)
    rw [failed] at ok
    simp at ok

/-- Reading a text into a draft succeeds exactly when the text is of the grammar and
its range, if it has one, is not inverted.  It then appends one constraint, with
the next number, the literals in the order written and the bounds given, and
appends the names that are new; what was there before is still there. -/
theorem parseExpression_accepts_written (steps : List Step) (text : String) :
    let d := ofSteps steps
    let answer := (d.parseExpression text.toList).1
    let d' := (d.parseExpression text.toList).2
    ((∃ id, answer = .ok id) ↔ ∃ e, Written e text.toList ∧
      ∀ least greatest, e.range = some (least, greatest) → least ≤ greatest) ∧
    ∀ id, answer = .ok id → ∃ e literals, Written e text.toList ∧ id = d.constraints.size ∧
      d'.constraints.toList
        = d.constraints.toList ++ [⟨id, literals, e.bounds.1, e.bounds.2⟩] ∧
      List.Forall₂ d'.Denotes literals e.literals ∧
      d'.names.toList
        = d.names.toList ++ newNames d.names.toList (e.literals.map (·.name)) ∧
      (∀ name p, d'.proposition? name = some p ↔ d'.names.toList[p]? = some name) ∧
      ∀ name p, d.proposition? name = some p → d'.proposition? name = some p := by
  intro d answer d'
  have wellFormed : d.WellFormed := wellFormed_ofSteps steps
  refine ⟨⟨?_, ?_⟩, ?_⟩
  · rintro ⟨id, ok⟩
    obtain ⟨e, written, le, -, -⟩ := exists_written_of_parseExpression wellFormed ok
    exact ⟨e, written, written.bounds_le_iff.mp le⟩
  · rintro ⟨e, written, ordered⟩
    have le := Nat.not_lt.mpr (written.bounds_le_iff.mpr ordered)
    refine ⟨d.constraints.size, ?_⟩
    simp only [answer, parseExpression_of_written wellFormed written, if_neg le]
  · intro id ok
    obtain ⟨e, written, -, rfl, effect⟩ := exists_written_of_parseExpression wellFormed ok
    have coherent := (WellFormed.internLiterals e.literals wellFormed).1.names
    refine ⟨e, (d.internLiterals e.literals).1, written, rfl, ?_, ?_, ?_, ?_, ?_⟩
    · simp only [d', effect, push_eq, constraints_internLiterals, Array.toList_push]
    · simp only [d', effect]
      exact denotes_internLiterals e.literals d
    · simp only [d', effect]
      exact names_internLiterals e.literals wellFormed.names
    · intro name p
      simp only [d', effect, Names.getElem?_toList]
      exact coherent name p
    · intro name p known
      simp only [d', effect]
      exact proposition?_internLiterals e.literals known

/-- A draft that knows `b` has read a range and three literals over two names. -/
def sampleReading : Except ExpressionError Nat × Draft :=
  (ofSteps [.intern "b"]).parseExpression "\u3000[+1,02]\u00A0!\u2003! b |c,1|! b".toList

theorem parseExpression_accepts_written_sample :
    sampleReading.1 = .ok 0 ∧ sampleReading.2.names.toList = ["b", "c,1"] ∧
      ∃ e, Written e "\u3000[+1,02]\u00A0!\u2003! b |c,1|! b".toList ∧
        List.Forall₂ sampleReading.2.Denotes [⟨0, true⟩, ⟨1, true⟩, ⟨0, false⟩] e.literals := by
  have ok : sampleReading.1 = .ok 0 := by decide
  have constraints : sampleReading.2.constraints.toList
      = [⟨0, [⟨0, true⟩, ⟨1, true⟩, ⟨0, false⟩], 1, 2⟩] := by decide
  obtain ⟨e, literals, written, -, appended, denotes, -⟩ :=
    (parseExpression_accepts_written [.intern "b"]
      "\u3000[+1,02]\u00A0!\u2003! b |c,1|! b").2 0 ok
  have same : literals = [⟨0, true⟩, ⟨1, true⟩, ⟨0, false⟩] := by
    have both := constraints.symm.trans appended
    exact (Constraint.mk.inj (List.singleton_inj.mp both)).2.1.symm
  rw [same] at denotes
  exact ⟨ok, by decide, e, written, denotes⟩

/-- What a failed attempt to read a text leaves.  If the range is inverted, the
names of the expression have been interned by then, and the draft is as it was
only if they were all known.  Any other failure leaves it as it was. -/
theorem parseExpression_error_effect (steps : List Step) (text : String)
    {cause : ExpressionError}
    (failed : ((ofSteps steps).parseExpression text.toList).1 = .error cause) :
    let d := ofSteps steps
    let d' := (d.parseExpression text.toList).2
    ((∀ least greatest, cause ≠ .refused (.invertedRange least greatest)) → d' = d) ∧
    ∀ least greatest, cause = .refused (.invertedRange least greatest) →
      greatest < least ∧ d'.constraints = d.constraints ∧
      ∃ literals, Written ⟨some (least, greatest), literals⟩ text.toList ∧
        d'.names.toList = d.names.toList ++ newNames d.names.toList (literals.map (·.name)) ∧
        (d' = d ↔ ∀ s ∈ literals, s.name ∈ d.names.toList) := by
  intro d d'
  have wellFormed : d.WellFormed := wellFormed_ofSteps steps
  by_cases readable : ∃ e, Written e text.toList
  · obtain ⟨e, written⟩ := readable
    have effect := parseExpression_of_written (A := .unlimited) wellFormed written
    by_cases inverted : e.bounds.2 < e.bounds.1
    · rw [if_pos inverted] at effect
      rw [effect] at failed
      obtain rfl := Except.error.inj failed
      refine ⟨fun other => absurd rfl (other _ _), ?_⟩
      intro least greatest same
      simp only [ExpressionError.refused.injEq, ConstraintError.invertedRange.injEq] at same
      obtain ⟨rfl, rfl⟩ := same
      have given := written.eq_of_inverted inverted
      refine ⟨inverted, ?_, e.literals, given ▸ written, ?_, ?_⟩
      · simp only [d', effect, constraints_internLiterals]
      · simp only [d', effect]
        exact names_internLiterals e.literals wellFormed.names
      · simp only [d', effect]
        exact internLiterals_eq_self_iff wellFormed.names e.literals
    · rw [effect, if_neg inverted] at failed
      simp at failed
  · obtain ⟨other, refused, unread⟩ :=
      parseExpression_of_not_written (ofSteps steps) (not_exists.mp readable)
    rw [refused] at failed
    obtain rfl := Except.error.inj failed
    refine ⟨fun _ => ?_, fun least greatest same => absurd same (unread _)⟩
    simp only [d', d, refused]

theorem parseExpression_error_effect_sample :
    ((ofSteps [.parse "b | a"]).parseExpression "[3,2] a | !b".toList).2
        = ofSteps [.parse "b | a"] ∧
      ((ofSteps [.parse "b | a"]).parseExpression "[3,2] a | !c | a".toList).2.names.toList
        = ["b", "a", "c"] := by
  have failed : ((ofSteps [.parse "b | a"]).parseExpression "[3,2] a | !b".toList).1
      = .error (.refused (.invertedRange 3 2)) := by decide
  obtain ⟨-, -, literals, written, -, unchanged⟩ :=
    (parseExpression_error_effect [.parse "b | a"] "[3,2] a | !b" failed).2 3 2 rfl
  have read : Expression.parse "[3,2] a | !b".toList
      = .ok ⟨some (3, 2), [⟨"a", true⟩, ⟨"b", false⟩]⟩ := by decide
  rw [(Expression.parse_eq_ok_iff _ _).mpr written] at read
  obtain rfl := (Expression.mk.inj (Except.ok.inj read)).2
  exact ⟨unchanged.mpr (by decide), by decide⟩

/-- An inverted range leaves the names of its expression behind. -/
theorem parseExpression_inverted_adds_names :
    (({} : Draft).parseExpression "[2,1] a | b".toList).1
        = .error (.refused (.invertedRange 2 1)) ∧
      ({} : Draft).proposition? "a" = none ∧
      (({} : Draft).parseExpression "[2,1] a | b".toList).2.proposition? "a" = some 0 ∧
      (({} : Draft).parseExpression "[2,1] a | b".toList).2 ≠ {} := by
  have added : (({} : Draft).parseExpression "[2,1] a | b".toList).2.proposition? "a" = some 0 := by
    decide
  refine ⟨by decide, by decide, added, fun same => ?_⟩
  rw [same] at added
  exact absurd added (by decide)

end Draft

end CardinalitySearch
