/-
CardinalitySearch.Proofs.Problem.WellFormed — what every built problem satisfies.

A problem comes from a sequence of operations on a draft or from a text
(`Problem.Built`).  In both cases its names are coherent, its constraints are
numbered by their positions, and every constraint has literals, a range that is
not empty, and only propositions that exist (`Problem.Indexed`).  A search also
needs that the sizes of a problem fit words if its numbers are kept in words
(`Problem.WellFormed`).

Operations that fail are part of the sequences.  An expression with an inverted
range leaves new names behind, so `Draft.WellFormed` must survive growth of the
names alone: `Constraint.Admissible` is monotone in the number of propositions.
-/
import CardinalitySearch.Problem.Step
import CardinalitySearch.Problem.Text
import CardinalitySearch.Proofs.Problem.Weights

namespace CardinalitySearch

/-- What a draft demands of a constraint over `n` propositions. -/
structure Constraint.Admissible (n : Nat) (c : Constraint) : Prop where
  literals_ne_nil : c.literals ≠ []
  atLeast_le_atMost : c.atLeast ≤ c.atMost
  proposition_lt : ∀ l ∈ c.literals, l.proposition < n

theorem Constraint.Admissible.mono {m n : Nat} {c : Constraint} (h : c.Admissible m)
    (hmn : m ≤ n) : c.Admissible n where
  literals_ne_nil := h.literals_ne_nil
  atLeast_le_atMost := h.atLeast_le_atMost
  proposition_lt l hl := Nat.lt_of_lt_of_le (h.proposition_lt l hl) hmn

/-! ## Names -/

namespace Names

theorem size_le_size_intern (ns : Names) (name : String) : ns.size ≤ (ns.intern name).2.size := by
  cases known : ns.number? name with
  | some p => simp [intern_of_number?_eq_some known]
  | none => rw [intern_of_number?_eq_none known]; simp [size]

/-- The number that interning gives is one of the numbers afterwards. -/
theorem Coherent.fst_intern_lt_size {ns : Names} (h : ns.Coherent) (name : String) :
    (ns.intern name).1 < (ns.intern name).2.size := by
  have stands := (h.intern name name _).mp (ns.number?_intern name)
  exact (Array.getElem?_eq_some_iff.mp stands).1

end Names

/-! ## Drafts -/

namespace Draft

variable {A : Arithmetic}

theorem snd_perform_parse (d : Draft) (text : String) :
    (d.perform (.parse text) A).2 = (d.parseExpression text.toList A).2 := by
  simp only [perform]
  split <;> next answer => rw [answer]

theorem snd_parseExpression_of_ok {text : List Char} {e : Expression}
    (read : Expression.parse text = .ok e) (d : Draft) :
    (d.parseExpression text A).2 = (d.addExpression e A).2 := by
  rw [parseExpression, read]
  dsimp only
  split <;> next answer => rw [answer]

/-- The invariant of a draft. -/
structure WellFormed (d : Draft) : Prop where
  names : d.names.Coherent
  ids : d.constraints.toList.map (·.id) = List.range d.constraints.size
  admissible : ∀ c ∈ d.constraints.toList, c.Admissible d.names.size

theorem wellFormed_empty : ({} : Draft).WellFormed where
  names := Names.coherent_empty
  ids := rfl
  admissible := by simp

namespace WellFormed

variable {d : Draft}

theorem intern (h : d.WellFormed) (name : String) : (d.intern name).2.WellFormed where
  names := h.names.intern name
  ids := h.ids
  admissible c hc := (h.admissible c hc).mono (d.names.size_le_size_intern name)

/-- Interning the names of literals keeps the invariant, and the literals are
over propositions of the draft that results. -/
theorem internLiterals (ss : List SignedName) :
    ∀ {d : Draft}, d.WellFormed →
      (d.internLiterals ss).2.WellFormed ∧
        d.names.size ≤ (d.internLiterals ss).2.names.size ∧
        ∀ l ∈ (d.internLiterals ss).1, l.proposition < (d.internLiterals ss).2.names.size := by
  induction ss with
  | nil => intro d h; exact ⟨h, Nat.le_refl _, by simp [Draft.internLiterals]⟩
  | cons s rest ih =>
    intro d h
    obtain ⟨kept, grows, inside⟩ := ih (h.intern s.name)
    have first : (d.intern s.name).1 < (d.intern s.name).2.names.size :=
      h.names.fst_intern_lt_size s.name
    refine ⟨kept, Nat.le_trans (d.names.size_le_size_intern s.name) grows, ?_⟩
    intro l hl
    rcases List.mem_cons.mp hl with rfl | hl
    · exact Nat.lt_of_lt_of_le first grows
    · exact inside l hl

/-- A constraint to which nothing is objected can be appended. -/
theorem push (h : d.WellFormed) {literals : List Literal} {atLeast atMost : Nat}
    (none : d.objection? literals atLeast atMost = none) :
    (d.push literals atLeast atMost).WellFormed := by
  unfold objection? at none
  split at none
  · simp at none
  · next nonempty =>
    split at none
    · simp at none
    · next ordered =>
      rw [push_eq]
      refine ⟨h.names, ?_, ?_⟩
      · simp [h.ids, List.range_succ]
      · intro c hc
        rcases List.mem_append.mp (Array.toList_push ▸ hc) with old | new
        · exact h.admissible c old
        · rw [List.mem_singleton.mp new]
          refine ⟨by simpa using nonempty, by simpa using ordered, ?_⟩
          simpa [Option.map_eq_none_iff, List.find?_eq_none] using none

theorem addConstraint (h : d.WellFormed) (literals : List Literal) (atLeast atMost : Nat) :
    (d.addConstraint literals atLeast atMost).2.WellFormed := by
  unfold Draft.addConstraint
  split
  · exact h
  · next none => exact h.push none

theorem addExpression (h : d.WellFormed) (e : Expression) :
    (d.addExpression e A).2.WellFormed :=
  (internLiterals e.literals h).1.addConstraint _ _ _

theorem parseExpression (h : d.WellFormed) (text : List Char) :
    (d.parseExpression text A).2.WellFormed := by
  cases read : Expression.parse text with
  | error cause =>
    rw [Draft.parseExpression, read]
    exact h
  | ok e =>
    rw [snd_parseExpression_of_ok read]
    exact h.addExpression e

theorem perform (h : d.WellFormed) (step : Step) : (d.perform step A).2.WellFormed := by
  cases step with
  | intern name => exact h.intern name
  | lookUp name => exact h
  | addClause literals => exact h.addConstraint literals 1 _
  | addConstraint literals atLeast atMost => exact h.addConstraint literals atLeast atMost
  | parse text =>
    rw [snd_perform_parse]
    exact h.parseExpression text.toList

theorem performAll (steps : List Step) :
    ∀ {d : Draft}, d.WellFormed → (d.performAll steps A).2.WellFormed := by
  induction steps with
  | nil => exact fun h => h
  | cons step rest ih => exact fun h => ih (h.perform step)

theorem parseLines (lines : List (List Char)) :
    ∀ {d d' : Draft} {number : Nat}, d.WellFormed → d.parseLines number lines A = .ok d' →
      d'.WellFormed := by
  induction lines with
  | nil =>
    intro d d' number h read
    cases read
    exact h
  | cons line rest ih =>
    intro d d' number h read
    simp only [Draft.parseLines] at read
    split at read
    · exact ih h read
    · have parsed : (d.parseExpression (Text.trim line) A).2.WellFormed :=
        h.parseExpression (Text.trim line)
      split at read
      · next eq => rw [eq] at parsed; exact ih parsed read
      · simp at read

end WellFormed

end Draft

/-! ## Problems -/

namespace Problem

/-- The problems that operations on a draft give, and those that texts give. -/
inductive Built : Problem → (A : Arithmetic := .unlimited) → Prop where
  | ofSteps (steps : List Draft.Step) {A : Arithmetic} :
    Built ((Draft.ofSteps steps A).build A) A
  | parse {text : String} {P : Problem} {A : Arithmetic} (h : Problem.parse text A = .ok P) :
    Built P A

/-- The sizes of a problem fit signed words. -/
structure FitsWords (P : Problem) : Prop where
  /-- There are not too many constraints. -/
  few : P.constraintCount < 2147483648
  /-- None of them has too many literals. -/
  short : ∀ c ∈ P.constraints.toList, c.literals.length < 2147483648

theorem FitsWords.fits {P : Problem} (small : P.FitsWords) {c : Constraint}
    (hc : c ∈ P.constraints.toList) {x : Int} (le : x.natAbs ≤ c.literals.length) :
    Word.Fits x :=
  Word.fits_of_natAbs_lt (Nat.lt_of_le_of_lt le (small.short c hc))

/-- The names and constraints are numbered, and the table is that of the constraints. -/
structure Indexed (P : Problem) : Prop where
  names : P.names.Coherent
  ids : P.constraints.toList.map (·.id) = List.range P.constraintCount
  admissible : ∀ c ∈ P.constraints.toList, c.Admissible P.propositionCount
  occurrences : P.occurrences
    = Occurrences.index P.propositionCount P.constraints.toList P.arithmetic

/-- The invariant of a problem. -/
structure WellFormed (P : Problem) : Prop extends Indexed P where
  /-- Words are used for sizes that fit them. -/
  suits : P.arithmetic = .words → P.FitsWords

/-- What a problem is built from, in any arithmetic. -/
theorem Built.exists_draft {P : Problem} {A : Arithmetic} (h : P.Built A) :
    ∃ d : Draft, d.WellFormed ∧ P = d.build A := by
  cases h with
  | ofSteps steps =>
    exact ⟨_, Draft.WellFormed.performAll steps Draft.wellFormed_empty, rfl⟩
  | parse read =>
    unfold Problem.parse at read
    split at read
    · next d lines =>
      cases read
      exact ⟨d, Draft.WellFormed.parseLines _ Draft.wellFormed_empty lines, rfl⟩
    · simp at read

theorem indexed_build {d : Draft} (h : d.WellFormed) (A : Arithmetic) : (d.build A).Indexed where
  names := h.names
  ids := h.ids
  admissible := h.admissible
  occurrences := rfl

/-- Every problem is indexed, whatever its sizes. -/
theorem Built.indexed {P : Problem} {A : Arithmetic} (h : P.Built A) : P.Indexed := by
  obtain ⟨d, wellFormed, rfl⟩ := h.exists_draft
  exact indexed_build wellFormed A

theorem Built.arithmetic_eq {P : Problem} {A : Arithmetic} (h : P.Built A) :
    P.arithmetic = A := by
  obtain ⟨d, -, rfl⟩ := h.exists_draft
  rfl

theorem Built.wellFormed {P : Problem} (h : P.Built) : P.WellFormed where
  toIndexed := h.indexed
  suits words := by simp [h.arithmetic_eq] at words

theorem Built.wellFormed_words {P : Problem} (h : P.Built .words) (small : P.FitsWords) :
    P.WellFormed where
  toIndexed := h.indexed
  suits _ := small

namespace Indexed

variable {P : Problem}

/-- The constraints stand in the order of their numbers. -/
theorem increasing (h : P.Indexed) : (P.constraints.toList.map (·.id)).Pairwise (· < ·) := by
  rw [h.ids]
  exact List.pairwise_lt_range

theorem distinct (h : P.Indexed) : (P.constraints.toList.map (·.id)).Nodup :=
  h.increasing.imp Nat.ne_of_lt

/-- A constraint is found under its own number and under no other. -/
theorem constraint?_eq_some_iff (h : P.Indexed) {i : Nat} {c : Constraint} :
    P.constraint? i = some c ↔ c ∈ P.constraints.toList ∧ c.id = i := by
  have numbered : ∀ {j : Nat} {d : Constraint}, P.constraints.toList[j]? = some d → d.id = j := by
    intro j d at_j
    have : (P.constraints.toList.map (·.id))[j]? = some d.id := by simp [at_j]
    rw [h.ids, List.getElem?_eq_some_iff] at this
    obtain ⟨_, value⟩ := this
    rw [← value, List.getElem_range]
  unfold constraint?
  rw [← Array.getElem?_toList]
  constructor
  · exact fun found => ⟨List.mem_of_getElem? found, numbered found⟩
  · rintro ⟨member, rfl⟩
    obtain ⟨j, found⟩ := List.mem_iff_getElem?.mp member
    rw [numbered found]
    exact found

theorem constraint?_id (h : P.Indexed) {c : Constraint} (hc : c ∈ P.constraints.toList) :
    P.constraint? c.id = some c :=
  h.constraint?_eq_some_iff.mpr ⟨hc, rfl⟩

theorem id_lt (h : P.Indexed) {c : Constraint} (hc : c ∈ P.constraints.toList) :
    c.id < P.constraintCount :=
  (Array.getElem?_eq_some_iff.mp (h.constraint?_id hc)).1

theorem exists_constraint (h : P.Indexed) {i : Nat} (hi : i < P.constraintCount) :
    ∃ c ∈ P.constraints.toList, c.id = i :=
  ⟨_, h.constraint?_eq_some_iff.mp (Array.getElem?_eq_getElem hi)⟩

theorem accepts_id (h : P.Indexed) {c : Constraint} (hc : c ∈ P.constraints.toList)
    (count : Nat) : P.accepts c.id count = c.accepts count := by
  rw [accepts, h.constraint?_id hc]

/-- A proposition of a problem has an entry in the table of occurrences. -/
theorem getElem?_occurrences (h : P.Indexed) {p : Nat} (hp : p < P.propositionCount) :
    P.occurrences[p]? = some (P.occurrencesOf p) := by
  have found := Occurrences.getElem?_index (A := P.arithmetic) hp P.constraints.toList
  rw [occurrencesOf, h.occurrences, Array.getD_eq_getD_getElem?, found]
  rfl

/-- The weighted list of a proposition holds what is kept of its weights. -/
theorem weighted_eq_entries (h : P.Indexed) {p : Nat} (hp : p < P.propositionCount) :
    (P.occurrencesOf p).weighted.toList
      = Occurrences.entries p P.constraints.toList P.arithmetic := by
  rw [occurrencesOf, h.occurrences, Occurrences.weighted_index hp h.distinct]

end Indexed

namespace WellFormed

variable {P : Problem}

/-- What is no larger than a constraint is long can be kept. -/
theorem fits (h : P.WellFormed) {c : Constraint} (hc : c ∈ P.constraints.toList) {x : Int}
    (le : x.natAbs ≤ c.literals.length) : P.arithmetic = .words → Word.Fits x :=
  fun words => (h.suits words).fits hc le

/-- So can what is no larger than there are constraints. -/
theorem fits_constraintCount (h : P.WellFormed) {x : Int} (le : x.natAbs ≤ P.constraintCount) :
    P.arithmetic = .words → Word.Fits x :=
  fun words => Word.fits_of_natAbs_lt (Nat.lt_of_le_of_lt le (h.suits words).few)

theorem count_le (h : P.WellFormed) {c : Constraint} (hc : c ∈ P.constraints.toList) {n : Nat}
    (le : n ≤ c.literals.length) : P.arithmetic = .words → n ≤ 4294967295 := by
  intro words
  have short := (h.suits words).short c hc
  omega

/-- The number of true literals of a constraint is kept. -/
theorem counted_eq (h : P.WellFormed) {c : Constraint} (hc : c ∈ P.constraints.toList)
    (a : Assignment) : P.counted a c = a.countTrue c.literals :=
  Arithmetic.unsigned_eq (h.count_le hc List.countP_le_length)

/-- So is the change of it. -/
theorem change_eq (h : P.WellFormed) {c : Constraint} (hc : c ∈ P.constraints.toList) (p : Nat)
    (value : Bool) :
    WeightedOccurrence.change ⟨c.id, c.weight p⟩ value P.arithmetic
      = WeightedOccurrence.change ⟨c.id, c.weight p⟩ value := by
  have le : (-c.weight p).natAbs ≤ c.literals.length :=
    Int.natAbs_neg (c.weight p) ▸ c.natAbs_weight_le p
  unfold WeightedOccurrence.change
  rw [Arithmetic.neg_eq (h.fits hc le), Arithmetic.neg_unlimited]

/-- The weighted list of a proposition, read off the constraints. -/
theorem weighted_occurrencesOf (h : P.WellFormed) {p : Nat} (hp : p < P.propositionCount) :
    (P.occurrencesOf p).weighted.toList = Occurrences.entries p P.constraints.toList := by
  have kept : ∀ c ∈ P.constraints.toList, P.arithmetic.signed (c.weight p) = c.weight p :=
    fun c hc => Arithmetic.signed_eq (h.fits hc (c.natAbs_weight_le p))
  rw [h.weighted_eq_entries hp, Occurrences.entries_eq kept]

/-- An entry of it is that of a constraint. -/
theorem exists_of_mem_weighted (h : P.WellFormed) {p : Nat} (hp : p < P.propositionCount)
    {o : WeightedOccurrence} (ho : o ∈ (P.occurrencesOf p).weighted.toList) :
    ∃ c ∈ P.constraints.toList, o = ⟨c.id, c.weight p⟩ := by
  rw [h.weighted_occurrencesOf hp, Occurrences.entries_unlimited, List.mem_map] at ho
  obtain ⟨c, hc, rfl⟩ := ho
  exact ⟨c, (List.mem_filter.mp hc).1, rfl⟩

/-- It has at most one entry for each constraint. -/
theorem length_weighted_le (h : P.WellFormed) {p : Nat} (hp : p < P.propositionCount) :
    (P.occurrencesOf p).weighted.toList.length ≤ P.constraintCount := by
  rw [h.weighted_occurrencesOf hp, Occurrences.entries, List.length_map]
  exact List.length_filter_le _ _

end WellFormed

end Problem

end CardinalitySearch
