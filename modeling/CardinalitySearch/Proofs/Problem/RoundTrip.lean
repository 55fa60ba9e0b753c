/-
CardinalitySearch.Proofs.Problem.RoundTrip — a problem and its text.

The text of a problem that has been read is read as the same problem: the same
names with the same numbers, the same constraints and the same occurrences
(`parse_text_of_parse`).  This holds of every text when numbers are kept in words, since
the bounds of a clause are then words like those of any range.

## How the proof goes

`parseLines_eq_ok_iff` separates reading from adding: a text is read when each
of its significant lines is written for an expression whose range is not
inverted, and the draft then is what adding these expressions gives (`addAll`).
The draft forgets how they were written, but each of its constraints still
holds an expression (`Holds`, `forall₂_holds_addAll`), and so the text of the
problem has one line for each, with the range in front.  Adding an expression
with its range in front is adding the expression.

The numbering comes back because names are only ever added with a constraint:
the text of a draft with other names would lose them.
-/
import CardinalitySearch.Proofs.Expression.Adding
import CardinalitySearch.Proofs.Expression.Printing

namespace CardinalitySearch

open Expression (Written IsLine)

/-! ## 1. Reading and adding -/

/-- The lines that are not skipped, without the blanks at their ends. -/
def significant (lines : List (List Char)) : List (List Char) :=
  (lines.map Text.trim).filter fun line => !isSkipped line

variable {A : Arithmetic}

/-- A text written for an expression whose range is not inverted. -/
structure Accepted (A : Arithmetic) (line : List Char) (e : Expression) : Prop where
  written : Written e line
  ordered : (e.bounds A).1 ≤ (e.bounds A).2

theorem significant_cons (line : List Char) (rest : List (List Char)) :
    significant (line :: rest)
      = if isSkipped (Text.trim line) then significant rest
        else Text.trim line :: significant rest := by
  cases skipped : isSkipped (Text.trim line) <;> simp [significant, skipped]

/-- Lines that hold something are significant as they are. -/
theorem significant_of_isLine {lines : List (List Char)} (h : ∀ line ∈ lines, IsLine line) :
    significant lines = lines := by
  induction lines with
  | nil => rfl
  | cons line rest ih =>
    rw [List.forall_mem_cons] at h
    rw [significant_cons, Text.trim_eq_self h.1.trimmed, h.1.notSkipped, ih h.2]
    rfl

namespace Draft

/-- Adds expressions in order. -/
def addAll (d : Draft) (es : List Expression) (A : Arithmetic := .unlimited) : Draft :=
  es.foldl (fun d e => (d.addExpression e A).2) d

theorem addAll_cons (d : Draft) (e : Expression) (es : List Expression) :
    d.addAll (e :: es) A = (d.addExpression e A).2.addAll es A :=
  rfl

theorem addExpression_of_accepted {d : Draft} (h : d.WellFormed) {e : Expression}
    {line : List Char} (accepted : Accepted A line e) :
    (d.addExpression e A).2
      = (d.internLiterals e.literals).2.push (d.internLiterals e.literals).1
          (e.bounds A).1 (e.bounds A).2 := by
  rw [addExpression_eq h accepted.written.literals_ne_nil, if_neg (Nat.not_lt.mpr accepted.ordered)]

theorem parseExpression_of_accepted {d : Draft} (h : d.WellFormed) {e : Expression}
    {line : List Char} (accepted : Accepted A line e) :
    d.parseExpression line A = (.ok d.constraints.size, (d.addExpression e A).2) := by
  rw [parseExpression_of_written h accepted.written, addExpression_of_accepted h accepted,
    if_neg (Nat.not_lt.mpr accepted.ordered)]

/-- Lines are read when the significant ones are accepted, and reading them is
adding what they are written for. -/
theorem parseLines_eq_ok_iff (lines : List (List Char)) :
    ∀ {d d' : Draft} {number : Nat}, d.WellFormed →
      (d.parseLines number lines A = .ok d' ↔
        ∃ es, List.Forall₂ (Accepted A) (significant lines) es ∧ d' = d.addAll es A) := by
  induction lines with
  | nil =>
    intro d d' number h
    simp [parseLines, significant, addAll, eq_comm]
  | cons line rest ih =>
    intro d d' number h
    rw [significant_cons]
    unfold parseLines
    dsimp only
    by_cases skipped : isSkipped (Text.trim line) = true
    · rw [if_pos skipped, if_pos skipped]
      exact ih h
    · rw [if_neg skipped, if_neg skipped]
      constructor
      · intro read
        split at read
        · next id next done =>
          have ok : (d.parseExpression (Text.trim line) A).1 = .ok id := by rw [done]
          obtain ⟨e, written, ordered, -, -⟩ := exists_written_of_parseExpression h ok
          have accepted : Accepted A (Text.trim line) e := ⟨written, ordered⟩
          rw [parseExpression_of_accepted h accepted] at done
          obtain ⟨-, rfl⟩ := Prod.mk.inj done
          obtain ⟨es, others, rfl⟩ := (ih (h.addExpression e)).mp read
          exact ⟨e :: es, .cons accepted others, rfl⟩
        · simp at read
      · rintro ⟨es, all, rfl⟩
        obtain ⟨e, others, accepted, more, rfl⟩ := List.forall₂_cons_left_iff.mp all
        rw [parseExpression_of_accepted h accepted]
        exact (ih (h.addExpression e)).mpr ⟨others, more, rfl⟩

/-! ## 2. What a draft keeps of the expressions added -/

/-- A constraint has the bounds of an expression, and its literals are over the
propositions of the names there. -/
structure Holds (d : Draft) (A : Arithmetic) (c : Constraint) (e : Expression) : Prop where
  atLeast : c.atLeast = (e.bounds A).1
  atMost : c.atMost = (e.bounds A).2
  literals : List.Forall₂ d.Denotes c.literals e.literals

theorem Holds.mono {d d' : Draft} {c : Constraint} {e : Expression} (h : d.Holds A c e)
    (known : ∀ name p, d.proposition? name = some p → d'.proposition? name = some p) :
    d'.Holds A c e where
  atLeast := h.atLeast
  atMost := h.atMost
  literals := h.literals.imp fun _ _ denotes => ⟨known _ _ denotes.1, denotes.2⟩

/-- Each expression added gets a constraint that holds it from then on. -/
theorem forall₂_holds_addAll {lines : List (List Char)} {es : List Expression}
    (all : List.Forall₂ (Accepted A) lines es) :
    ∀ {d : Draft} {before : List Expression}, d.WellFormed →
      List.Forall₂ (d.Holds A) d.constraints.toList before →
      (d.addAll es A).WellFormed ∧
        List.Forall₂ ((d.addAll es A).Holds A) (d.addAll es A).constraints.toList
          (before ++ es) := by
  induction all with
  | nil =>
    intro d before h held
    rw [List.append_nil]
    exact ⟨h, held⟩
  | @cons line e lines es accepted _ ih =>
    intro d before h held
    rw [addAll_cons, List.append_cons]
    refine ih (h.addExpression e) ?_
    have constraints : ((d.internLiterals e.literals).2.push (d.internLiterals e.literals).1
        (e.bounds A).1 (e.bounds A).2).constraints.toList = d.constraints.toList ++
          [⟨d.constraints.size, (d.internLiterals e.literals).1,
            (e.bounds A).1, (e.bounds A).2⟩] := by
      rw [push_eq, Array.toList_push, constraints_internLiterals]
    rw [addExpression_of_accepted h accepted, constraints]
    -- no name loses its number, so the earlier constraints still hold their expressions
    refine List.rel_append (held.imp fun _ _ holds => ?_) (.cons ?_ .nil)
    · exact holds.mono fun _ _ known => proposition?_internLiterals e.literals known
    · exact ⟨rfl, rfl, denotes_internLiterals e.literals d⟩

/-- Adding an expression with its range in front is adding the expression. -/
theorem addAll_map_explicit (es : List Expression) :
    ∀ d : Draft, d.addAll (es.map (·.explicit A)) A = d.addAll es A := by
  induction es with
  | nil => exact fun d => rfl
  | cons e rest ih => exact fun d => ih (d.addExpression e A).2

end Draft

/-! ## 3. The text of a problem -/

namespace Problem

open Draft (Holds)

/-- What is related to a list has an element for each element of it. -/
theorem exists_of_forall₂ {α β : Type} {R : α → β → Prop} {as : List α} {bs : List β}
    (h : List.Forall₂ R as bs) : ∀ b ∈ bs, ∃ a ∈ as, R a b := by
  induction h with
  | nil => simp
  | @cons a b as bs related _ ih =>
    rw [List.forall_mem_cons]
    refine ⟨⟨a, List.mem_cons_self, related⟩, fun b hb => ?_⟩
    obtain ⟨a, ha, related⟩ := ih b hb
    exact ⟨a, List.mem_cons_of_mem _ ha, related⟩

theorem expression_of_holds {d : Draft} (h : d.names.Coherent) {c : Constraint} {e : Expression}
    (holds : d.Holds A c e) : (d.build A).expression c = e.explicit A := by
  have named : ∀ l s, d.Denotes l s → (d.build A).signedName l = s := by
    rintro l s ⟨number, positive⟩
    have name : (d.build A).name? l.proposition = some s.name := (h _ _).mp number
    unfold signedName
    rw [name, positive]
    rfl
  have literals : c.literals.map (d.build A).signedName = e.literals := by
    have same := List.forall₂_map_left_iff.mpr (holds.literals.imp named)
    rwa [List.forall₂_eq_eq_eq] at same
  unfold expression Expression.explicit
  rw [holds.atLeast, holds.atMost, literals]

theorem expressions_of_holds {d : Draft} (h : d.names.Coherent) {es : List Expression}
    (held : List.Forall₂ (d.Holds A) d.constraints.toList es) :
    (d.build A).constraints.toList.map (d.build A).expression = es.map (·.explicit A) := by
  have same : List.Forall₂ (fun c e => (d.build A).expression c = e.explicit A)
      d.constraints.toList es := held.imp fun _ _ holds => expression_of_holds h holds
  have mapped := List.forall₂_map_left_iff.mpr (List.forall₂_map_right_iff.mpr same)
  rwa [List.forall₂_eq_eq_eq] at mapped

theorem parse_eq_ok_iff (text : String) (P : Problem) :
    parse text A = .ok P ↔ ∃ es,
      List.Forall₂ (Accepted A) (significant (Text.lines text.toList)) es ∧
        P = (({} : Draft).addAll es A).build A := by
  unfold parse
  constructor
  · intro read
    split at read
    · next d lines =>
      obtain ⟨es, all, rfl⟩ := (Draft.parseLines_eq_ok_iff _ Draft.wellFormed_empty).mp lines
      exact ⟨es, all, (Except.ok.inj read).symm⟩
    · simp at read
  · rintro ⟨es, all, rfl⟩
    have lines : ({} : Draft).parseLines 1 (Text.lines text.toList) A
        = .ok (({} : Draft).addAll es A) :=
      (Draft.parseLines_eq_ok_iff _ Draft.wellFormed_empty).mpr ⟨es, all, rfl⟩
    rw [lines]

/-- The text has a line for each constraint, in order. -/
theorem significant_lines_text {P : Problem} {es : List Expression}
    (expressions : P.constraints.toList.map P.expression = es)
    (isLine : ∀ e ∈ es, IsLine e.text.toList) :
    significant (Text.lines P.text.toList) = es.map (·.text.toList) := by
  have all : ∀ line ∈ es.map (·.text.toList), IsLine line := List.forall_mem_map.mpr isLine
  have joined : P.text.toList = (es.map (·.text.toList)).flatMap (· ++ ['\n']) := by
    rw [← expressions]
    simp [text, List.flatMap_map]
  rw [joined, Text.lines_flatMap, significant_of_isLine all]
  exact fun line h => ⟨(all line h).lineFeed_not_mem, (all line h).getLast?_ne_return⟩

/-- The text of a problem that has been read gives the problem back if its bounds are
numbers that a range can have. -/
theorem parse_text_of_atMost {text : String} {P : Problem} (read : parse text A = .ok P)
    (words : ∀ c ∈ P.constraints.toList, c.atMost ≤ Text.maxWord32) :
    parse P.text A = .ok P := by
  obtain ⟨es, all, rfl⟩ := (parse_eq_ok_iff _ _).mp read
  obtain ⟨wellFormed, held⟩ := Draft.forall₂_holds_addAll all Draft.wellFormed_empty .nil
  rw [List.nil_append] at held
  have expressions := expressions_of_holds wellFormed.names held
  have readable : ∀ e ∈ es, (e.bounds A).1 ≤ (e.bounds A).2 ∧ (e.explicit A).Printable := by
    intro e he
    obtain ⟨line, -, accepted⟩ := exists_of_forall₂ all e he
    obtain ⟨c, hc, holds⟩ := exists_of_forall₂ held e he
    have fits : (e.bounds A).2 ≤ Text.maxWord32 := holds.atMost ▸ words c hc
    exact ⟨accepted.ordered, accepted.written.printable_explicit accepted.ordered fits⟩
  have lines := significant_lines_text expressions
    (List.forall_mem_map.mpr fun e he => (readable e he).2.isLine_text rfl)
  refine (parse_eq_ok_iff _ _).mpr ⟨es.map (·.explicit A), ?_, ?_⟩
  · rw [lines, List.forall₂_map_left_iff, List.forall₂_same, List.forall_mem_map]
    intro e he
    obtain ⟨ordered, printable⟩ := readable e he
    exact ⟨printable.written_text, ordered⟩
  · rw [Draft.addAll_map_explicit]

/-- The bounds of a constraint that has been read in words are words, those that a
clause has by default as well. -/
theorem atMost_le_of_parse {text : String} {P : Problem} (read : parse text .words = .ok P) :
    ∀ c ∈ P.constraints.toList, c.atMost ≤ Text.maxWord32 := by
  obtain ⟨es, all, rfl⟩ := (parse_eq_ok_iff _ _).mp read
  obtain ⟨-, held⟩ := Draft.forall₂_holds_addAll all Draft.wellFormed_empty .nil
  intro c hc
  obtain ⟨e, he, holds⟩ := exists_of_forall₂ held.flip c hc
  obtain ⟨line, -, accepted⟩ := exists_of_forall₂ all e he
  rw [holds.atMost]
  exact accepted.written.atMost_words_le

/-- The text of a problem that has been read gives the problem back.  In words every
problem is read so; without limits it is one whose bounds are words, which excludes
only a clause with more literals than a word can count. -/
theorem parse_text_of_parse (text : String) (P : Problem) :
    (parse text .words = .ok P → parse P.text .words = .ok P) ∧
      (parse text = .ok P → (∀ c ∈ P.constraints.toList, c.atMost ≤ Text.maxWord32) →
        parse P.text = .ok P) :=
  ⟨fun read => parse_text_of_atMost read (atMost_le_of_parse read), parse_text_of_atMost⟩

/-- A comment, an empty line and two constraints, the last of which ends the text. -/
def sampleText : String :=
  "# first line\r\n\r\n  b|! c,1\n[+0, 02] !!! b | b | !!a"

theorem exists_parse_sampleText (A : Arithmetic) :
    ∃ P, parse sampleText A = .ok P ∧ P.text = "[1,2] b | !c,1\n[0,2] !b | b | a\n" ∧
      P.constraints.toList = [⟨0, [⟨0, true⟩, ⟨1, false⟩], 1, 2⟩,
        ⟨1, [⟨0, false⟩, ⟨0, true⟩, ⟨2, true⟩], 0, 2⟩] := by
  have printed : (parse sampleText A).toOption.map (fun P => (P.text, P.constraints.toList))
      = some ("[1,2] b | !c,1\n[0,2] !b | b | a\n", [⟨0, [⟨0, true⟩, ⟨1, false⟩], 1, 2⟩,
          ⟨1, [⟨0, false⟩, ⟨0, true⟩, ⟨2, true⟩], 0, 2⟩]) := by
    cases A <;> decide
  cases read : parse sampleText A with
  | error e => simp [read, Except.toOption] at printed
  | ok P =>
    simp only [read, Except.toOption, Option.map_some, Option.some.injEq, Prod.mk.injEq] at printed
    exact ⟨P, rfl, printed⟩

theorem parse_text_of_parse_sample :
    (∃ P, parse sampleText .words = .ok P ∧
      P.text = "[1,2] b | !c,1\n[0,2] !b | b | a\n" ∧ parse P.text .words = .ok P) ∧
    ∃ P, parse sampleText = .ok P ∧
      P.text = "[1,2] b | !c,1\n[0,2] !b | b | a\n" ∧ parse P.text = .ok P := by
  constructor
  · obtain ⟨P, read, printed, -⟩ := exists_parse_sampleText .words
    exact ⟨P, read, printed, (parse_text_of_parse sampleText P).1 read⟩
  · obtain ⟨P, read, printed, constraints⟩ := exists_parse_sampleText .unlimited
    have words : ∀ c ∈ P.constraints.toList, c.atMost ≤ Text.maxWord32 := by
      rw [constraints]
      decide
    exact ⟨P, read, printed, (parse_text_of_parse sampleText P).2 read words⟩

end Problem

end CardinalitySearch
