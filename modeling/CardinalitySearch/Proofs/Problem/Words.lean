/-
CardinalitySearch.Proofs.Problem.Words — problems do not need more than 32 bits.

A weight is the difference of two numbers of literals, so it is at most the number of
literals of its constraint.  This holds while the lists are filled as well, since the
table at such a point is the table of the constraints with the literals recorded so far
(`Problem.Recorded`), and what a table holds is known in any arithmetic
(`weighted_index`).  So no weight leaves the range of a signed word on the way.

The only other number that a problem is built with is the maximum of a clause.  It is
the length of a list, and a list that is too long does not get into a problem that fits
words: nothing is ever taken out of a draft again.  So the same operations build the
same problem (`Built.inWords`), and the same text is read as the same problem
(`parse_words`).
-/
import CardinalitySearch.Proofs.Problem.Lines
import CardinalitySearch.Proofs.Problem.Numbering

namespace CardinalitySearch

/-! ## Tables -/

namespace Occurrences

variable {A : Arithmetic} {n p : Nat} {cs : List Constraint}

/-- Occurrences are given by their lists. -/
theorem ext_toList {o o' : Occurrences}
    (ofSign : ∀ sign, (o.ofSign sign).toList = (o'.ofSign sign).toList)
    (weighted : o.weighted.toList = o'.weighted.toList) : o = o' := by
  obtain ⟨positive, negative, weights⟩ := o
  obtain ⟨positive', negative', weights'⟩ := o'
  obtain rfl : positive = positive' := Array.toList_inj.mp (ofSign true)
  obtain rfl : negative = negative' := Array.toList_inj.mp (ofSign false)
  obtain rfl : weights = weights' := Array.toList_inj.mp weighted
  rfl

/-- Weights that can be kept make the same table. -/
theorem index_eq (distinct : (cs.map (·.id)).Nodup)
    (kept : ∀ c ∈ cs, ∀ p, A.signed (c.weight p) = c.weight p) : index n cs A = index n cs := by
  refine Array.ext_getElem? fun p => ?_
  by_cases inside : p < n
  · have sign := fun sign => (ofSign_index (A := A) inside sign distinct).trans
      (ofSign_index (A := .unlimited) inside sign distinct).symm
    have weighted := ((weighted_index (A := A) inside distinct).trans
      (entries_eq fun c hc => kept c hc p)).trans
      (weighted_index (A := .unlimited) inside distinct).symm
    have same := ext_toList sign weighted
    rw [Array.getD_eq_getD_getElem?, Array.getD_eq_getD_getElem?] at same
    rw [getElem?_index inside, getElem?_index inside] at same ⊢
    exact congrArg some same
  · rw [Array.getElem?_eq_none_iff.mpr (by rw [size_index]; exact Nat.not_lt.mp inside),
      Array.getElem?_eq_none_iff.mpr (by rw [size_index]; exact Nat.not_lt.mp inside)]

/-- An entry of a weighted list is that of a constraint. -/
theorem exists_of_mem_weighted (distinct : (cs.map (·.id)).Nodup) {o : WeightedOccurrence}
    (ho : o ∈ ((index n cs).getD p {}).weighted.toList) : ∃ c ∈ cs, o = ⟨c.id, c.weight p⟩ := by
  by_cases inside : p < n
  · rw [weighted_index inside distinct, entries_unlimited, List.mem_map] at ho
    obtain ⟨c, hc, rfl⟩ := ho
    exact ⟨c, List.mem_of_mem_filter hc, rfl⟩
  · have beyond : (index n cs)[p]? = none := by
      rw [Array.getElem?_eq_none_iff, size_index]
      exact Nat.not_lt.mp inside
    rw [Array.getD_eq_getD_getElem?, beyond] at ho
    simp at ho

end Occurrences

namespace Problem

/-- The constraints with those literals that are recorded at some point while the lists
of a problem are filled: some constraints in full and the first literals of the next
one. -/
def Recorded (P : Problem) (cs : List Constraint) : Prop :=
  ∃ done c rest ls pending, P.constraints.toList = done ++ c :: rest ∧
    c.literals = ls ++ pending ∧ cs = done ++ [{ c with literals := ls }]

variable {P : Problem} {cs : List Constraint}

theorem Recorded.distinct (h : P.Recorded cs) (hP : P.WellFormed) : (cs.map (·.id)).Nodup := by
  obtain ⟨done, c, rest, ls, pending, split, -, rfl⟩ := h
  have all := hP.distinct
  rw [split, List.map_append, List.map_cons] at all
  rw [List.map_append]
  exact all.sublist ((List.Sublist.refl _).append (by simp))

/-- No more literals are recorded than there are. -/
theorem Recorded.exists_constraint (h : P.Recorded cs) {d : Constraint} (hd : d ∈ cs) :
    ∃ c ∈ P.constraints.toList, c.id = d.id ∧ d.literals.length ≤ c.literals.length := by
  obtain ⟨done, c, rest, ls, pending, split, split', rfl⟩ := h
  rcases List.mem_append.mp hd with old | new
  · exact ⟨d, by simp [split, old], rfl, Nat.le_refl _⟩
  · rw [List.mem_singleton.mp new]
    exact ⟨c, by simp [split], rfl, by simp [split']⟩

/-- At every point the table in words is the plain one, and its weights are at most the
numbers of literals. -/
theorem WellFormed.recorded_exact (hP : P.WellFormed) (small : P.FitsWords)
    (h : P.Recorded cs) (n : Nat) :
    Occurrences.index n cs .words = Occurrences.index n cs ∧
      ∀ p, ∀ o ∈ ((Occurrences.index n cs).getD p {}).weighted.toList, Word.Fits o.weight ∧
        ∃ c, P.constraint? o.constraint = some c ∧ o.weight.natAbs ≤ c.literals.length := by
  have weight : ∀ d ∈ cs, ∃ c ∈ P.constraints.toList, c.id = d.id ∧
      ∀ p, (d.weight p).natAbs ≤ c.literals.length := fun d hd =>
    have ⟨c, hc, same, le⟩ := h.exists_constraint hd
    ⟨c, hc, same, fun p => Nat.le_trans (d.natAbs_weight_le p) le⟩
  have fits : ∀ d ∈ cs, ∀ p, Word.Fits (d.weight p) := fun d hd p =>
    have ⟨_, hc, _, le⟩ := weight d hd
    small.fits hc (le p)
  refine ⟨Occurrences.index_eq (h.distinct hP) fun d hd p => Word.signed_eq (fits d hd p), ?_⟩
  intro p o ho
  obtain ⟨d, hd, rfl⟩ := Occurrences.exists_of_mem_weighted (h.distinct hP) ho
  obtain ⟨c, hc, same, le⟩ := weight d hd
  exact ⟨fits d hd p, c, hP.constraint?_eq_some_iff.mpr ⟨hc, same⟩, le p⟩

/-! ## Problems -/

theorem WellFormed.inWords (hP : P.WellFormed) (small : P.FitsWords) : P.inWords.WellFormed where
  names := hP.names
  ids := hP.ids
  admissible := hP.admissible
  occurrences := rfl
  suits _ := ⟨small.few, small.short⟩

/-- The table in words is the table. -/
theorem WellFormed.occurrences_inWords (hP : P.WellFormed) (small : P.FitsWords) :
    P.inWords.occurrences = P.occurrences := by
  have kept : ∀ (A : Arithmetic), ∀ c ∈ P.constraints.toList, ∀ p,
      A.signed (c.weight p) = c.weight p := fun A c hc p =>
    Arithmetic.signed_eq fun _ => small.fits hc (c.natAbs_weight_le p)
  rw [hP.occurrences, Occurrences.index_eq hP.distinct (kept P.arithmetic)]
  exact Occurrences.index_eq hP.distinct (kept .words)

end Problem

/-! ## Default maxima -/

/-- The maximum that a list of literals gets is their number. -/
theorem unsigned_length {α : Type} {l : List α} (short : l.length < 2147483648)
    (A : Arithmetic) : A.unsigned l.length = l.length :=
  Arithmetic.unsigned_eq fun _ => by omega

theorem Expression.bounds_words {e : Expression} (short : e.literals.length < 2147483648) :
    e.bounds .words = e.bounds := by
  rw [Expression.bounds, Expression.bounds, unsigned_length short, unsigned_length short]

namespace Draft

variable {d : Draft}

theorem addClause_words {literals : List Literal} (short : literals.length < 2147483648)
    (d : Draft) : d.addClause literals .words = d.addClause literals := by
  rw [addClause, addClause, unsigned_length short, unsigned_length short]

theorem addExpression_words {e : Expression} (short : e.literals.length < 2147483648)
    (d : Draft) : d.addExpression e .words = d.addExpression e := by
  rw [addExpression, addExpression, Expression.bounds_words short]

theorem parseExpression_words {text : List Char}
    (short : ∀ e, Expression.parse text = .ok e → e.literals.length < 2147483648) (d : Draft) :
    d.parseExpression text .words = d.parseExpression text := by
  unfold parseExpression
  cases read : Expression.parse text with
  | error cause => rfl
  | ok e => dsimp only; rw [addExpression_words (short e read)]

/-- A constraint that is added has the next number. -/
theorem getElem?_of_addConstraint {d' : Draft} {literals : List Literal}
    {atLeast atMost id : Nat} (h : d.addConstraint literals atLeast atMost = (.ok id, d')) :
    d'.constraints[id]? = some ⟨id, literals, atLeast, atMost⟩ := by
  unfold addConstraint at h
  split at h
  · simp at h
  · obtain ⟨ok, rfl⟩ := Prod.mk.inj h
    obtain rfl := Except.ok.inj ok
    simp [push_eq]

/-- The constraint of an expression that has been read has the bounds written. -/
theorem exists_of_parseExpression {d' : Draft} {text : List Char} {e : Expression} {id : Nat}
    (read : Expression.parse text = .ok e) (h : d.parseExpression text = (.ok id, d')) :
    ∃ literals, literals.length = e.literals.length ∧
      d'.constraints[id]? = some ⟨id, literals, e.bounds.1, e.bounds.2⟩ := by
  have added : d.addExpression e = (.ok id, d') := by
    rw [parseExpression, read] at h
    dsimp only at h
    split at h
    · next answer =>
      obtain ⟨ok, rfl⟩ := Prod.mk.inj h
      rw [answer, Except.ok.inj ok]
    · simp at h
  exact ⟨(d.internLiterals e.literals).1, (denotes_internLiterals e.literals d).length_eq,
    getElem?_of_addConstraint added⟩

/-! ## Drafts -/

/-- No constraint has too many literals. -/
def Short (d : Draft) : Prop :=
  ∀ c ∈ d.constraints.toList, c.literals.length < 2147483648

theorem Extends.short {d' : Draft} (h : d.Extends d') (short : d'.Short) : d.Short := by
  intro c hc
  obtain ⟨i, stands⟩ := List.mem_iff_getElem?.mp hc
  rw [Array.getElem?_toList] at stands
  exact short c (Array.mem_toList_iff.mpr (Array.mem_of_getElem? (h.constraint i c stands)))

theorem length_lt_of_short_push {literals : List Literal} {atLeast atMost : Nat}
    (short : (d.push literals atLeast atMost).Short) : literals.length < 2147483648 :=
  short ⟨d.constraints.size, literals, atLeast, atMost⟩ (by simp [push_eq])

/-- A clause that is too long is not added, and in words neither. -/
theorem snd_addClause_words {literals : List Literal} (short : (d.addClause literals).2.Short) :
    (d.addClause literals .words).2 = (d.addClause literals).2 := by
  by_cases few : literals.length < 2147483648
  · rw [addClause_words few]
  · have nonempty : literals.isEmpty = false := by
      cases literals with
      | nil => simp at few
      | cons l rest => rfl
    -- the cause is a literal of a proposition without a name, which is still there
    have refused : ∀ atMost, ∃ cause, d.objection? literals 1 atMost = some cause := by
      intro atMost
      cases unknown : literals.find? fun l => d.names.size ≤ l.proposition with
      | some l =>
        unfold objection?
        rw [nonempty, unknown]
        simp only [Bool.false_eq_true, if_false, Option.map_some]
        split <;> exact ⟨_, rfl⟩
      | none =>
        have clear : d.objection? literals 1 literals.length = none := by
          have ordered : ¬ literals.length < 1 := by omega
          rw [objection?, nonempty, unknown, if_neg Bool.false_ne_true, if_neg ordered,
            Option.map_none]
        rw [addClause, addConstraint, Arithmetic.unsigned_unlimited, clear] at short
        exact absurd (length_lt_of_short_push short) few
    have unchanged : ∀ A, (d.addClause literals A).2 = d := fun A => by
      obtain ⟨cause, objection⟩ := refused (A.unsigned literals.length)
      rw [addClause, addConstraint, objection]
    rw [unchanged, unchanged]

/-- A text that is too long is not added, and in words neither. -/
theorem snd_parseExpression_words (h : d.WellFormed) {text : List Char}
    (short : (d.parseExpression text).2.Short) :
    (d.parseExpression text .words).2 = (d.parseExpression text).2 := by
  cases read : Expression.parse text with
  | error cause => rw [parseExpression, parseExpression, read]
  | ok e =>
    have written := (Expression.parse_eq_ok_iff text e).mp read
    by_cases few : e.literals.length < 2147483648
    · rw [parseExpression_words (fun e' read' => Except.ok.inj (read.symm.trans read') ▸ few)]
    · have given : e.range ≠ none := fun none => by
        have ordered := written.bounds_le_iff.mpr (by simp [none])
        rw [parseExpression_of_written h written, if_neg (Nat.not_lt.mpr ordered)] at short
        rw [← (denotes_internLiterals e.literals d).length_eq] at few
        exact few (length_lt_of_short_push short)
      have bounds : e.bounds .words = e.bounds := by
        obtain ⟨_ | range, literals⟩ := e
        · exact absurd rfl given
        · rfl
      rw [snd_parseExpression_of_ok read, snd_parseExpression_of_ok read, addExpression,
        addExpression, bounds]

theorem snd_perform_words (h : d.WellFormed) (step : Step) (short : (d.perform step).2.Short) :
    (d.perform step .words).2 = (d.perform step).2 := by
  cases step with
  | intern name => rfl
  | lookUp name => rfl
  | addClause literals => exact snd_addClause_words short
  | addConstraint literals atLeast atMost => rfl
  | parse text =>
    rw [snd_perform_parse] at short
    rw [snd_perform_parse, snd_perform_parse, snd_parseExpression_words h short]

theorem snd_performAll_words (steps : List Step) :
    ∀ {d : Draft}, d.WellFormed → (d.performAll steps).2.Short →
      (d.performAll steps .words).2 = (d.performAll steps).2 := by
  induction steps with
  | nil => exact fun _ _ => rfl
  | cons step rest ih =>
    intro d h short
    have first := snd_perform_words h step ((extends_performAll rest _).short short)
    have more : (d.performAll (step :: rest) .words).2
        = ((d.perform step .words).2.performAll rest .words).2 := rfl
    rw [more, first, ih (h.perform step) short]
    rfl

/-- A text that is added with few literals is added in words. -/
theorem parseExpression_words_of_ok {d' : Draft} {text : List Char} {id : Nat}
    (answer : d.parseExpression text = (.ok id, d')) (short : d'.Short) :
    d.parseExpression text .words = (.ok id, d') := by
  rw [← answer]
  refine parseExpression_words (fun e read => ?_) d
  obtain ⟨literals, length, stands⟩ := exists_of_parseExpression read answer
  rw [← length]
  exact short _ (Array.mem_toList_iff.mpr (Array.mem_of_getElem? stands))

theorem parseLines_words (lines : List (List Char)) :
    ∀ {d d' : Draft} {number : Nat}, d.WellFormed → d'.Short →
      d.parseLines number lines = .ok d' → d.parseLines number lines .words = .ok d' := by
  induction lines with
  | nil => exact fun _ _ read => read
  | cons line rest ih =>
    intro d d' number h short read
    unfold parseLines at read ⊢
    dsimp only at read ⊢
    split at read
    · next skipped =>
      rw [if_pos skipped]
      exact ih h short read
    · next kept =>
      rw [if_neg kept]
      split at read
      · next id after answer =>
        have next : after.WellFormed := by
          have := h.parseExpression (A := .unlimited) (Text.trim line)
          rwa [answer] at this
        -- what has been read by then stays in the draft, so it is short as well
        have stays : after.Extends d' := by
          rw [((parseLines_eq_ok_iff_accepted rest next).mp read).2]
          exact extends_performAll _ after
        rw [parseExpression_words_of_ok answer (stays.short short)]
        exact ih next short read
      · simp at read

end Draft

namespace Problem

variable {P : Problem}

/-- A problem is built by operations also when it is read from a text. -/
theorem Built.exists_steps (h : P.Built) : ∃ steps, P = (Draft.ofSteps steps).build := by
  cases h with
  | ofSteps steps => exact ⟨steps, rfl⟩
  | parse read => exact ⟨_, ((parse_eq_ok_iff_accepted _ P).mp read).2⟩

/-- In words the same operations build the same problem. -/
theorem Built.inWords (h : P.Built) (small : P.FitsWords) : P.inWords.Built .words := by
  obtain ⟨steps, rfl⟩ := h.exists_steps
  have same : Draft.ofSteps steps .words = Draft.ofSteps steps :=
    Draft.snd_performAll_words steps Draft.wellFormed_empty small.short
  have built := Built.ofSteps steps (A := .words)
  rw [same] at built
  exact built

/-- In words the same text is read as the same problem. -/
theorem parse_words {text : String} (read : parse text = .ok P) (small : P.FitsWords) :
    parse text .words = .ok P.inWords := by
  unfold parse at read ⊢
  split at read
  · next d lines =>
    cases read
    rw [Draft.parseLines_words _ Draft.wellFormed_empty small.short lines]
    rfl
  · simp at read

end Problem

end CardinalitySearch
