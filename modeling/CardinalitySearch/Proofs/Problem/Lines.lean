/-
CardinalitySearch.Proofs.Problem.Lines — a text is read line by line.

Reading threads one draft through all lines, and yet each line is judged as if
it stood alone: whether an expression is accepted, and with which error it is
refused, does not depend on the names and constraints that are there already
(`fst_parseExpression`).  So a text is read exactly when a draft without
anything in it accepts each of its significant lines, and otherwise the error
is the one that the first refused line gives on such a draft
(`parse_linewise`).

Lines that are skipped only count.  `parseLines_insert` says so on lists of
lines; `Text.lines_append` carries it over to texts, where what is inserted
starts and ends at line boundaries.
-/
import CardinalitySearch.Proofs.Problem.RoundTrip

namespace CardinalitySearch

open Text (EndsLine)

/-! ## 1. A line on its own -/

/-- A line that a draft without anything in it refuses. -/
structure Refused (line : List Char) (cause : ExpressionError) : Prop where
  significant : isSkipped (Text.trim line) = false
  answer : (({} : Draft).parseExpression (Text.trim line)).1 = .error cause

/-- A line is skipped, accepted or refused. -/
theorem exists_refused_or (line : List Char) :
    isSkipped (Text.trim line) = true ∨
      (isSkipped (Text.trim line) = false ∧
        ∃ id, (({} : Draft).parseExpression (Text.trim line)).1 = .ok id) ∨
      ∃ cause, Refused line cause := by
  cases skipped : isSkipped (Text.trim line) with
  | true => exact .inl rfl
  | false =>
    cases answer : (({} : Draft).parseExpression (Text.trim line)).1 with
    | ok id => exact .inr (.inl ⟨rfl, id, rfl⟩)
    | error cause => exact .inr (.inr ⟨cause, skipped, answer⟩)

theorem Refused.cause_eq {line : List Char} {cause cause' : ExpressionError}
    (h : Refused line cause) (h' : Refused line cause') : cause = cause' := by
  have answer := h.answer
  rw [h'.answer] at answer
  exact (Except.error.inj answer).symm

theorem not_refused_of_skipped {line : List Char} (skipped : isSkipped (Text.trim line) = true)
    (cause : ExpressionError) : ¬ Refused line cause := fun h => by
  rw [h.significant] at skipped
  exact Bool.false_ne_true skipped

theorem not_refused_of_accepted {line : List Char} {id : Nat}
    (accepted : (({} : Draft).parseExpression (Text.trim line)).1 = .ok id)
    (cause : ExpressionError) : ¬ Refused line cause := fun h => by
  rw [h.answer] at accepted
  simp at accepted

/-- An error is that of the first refused line, where the first line of all has
number `number`. -/
def FirstRefused (number : Nat) (lines : List (List Char)) (e : LineError) : Prop :=
  ∃ above line below, lines = above ++ line :: below ∧ e.line = number + above.length ∧
    Refused line e.cause ∧ ∀ earlier ∈ above, ∀ cause, ¬ Refused earlier cause

theorem not_firstRefused_nil (number : Nat) (e : LineError) : ¬ FirstRefused number [] e := by
  rintro ⟨above, line, below, split, -⟩
  simp at split

/-- The first refused line is the first line, or the first one of the rest. -/
theorem firstRefused_cons (number : Nat) (line : List Char) (rest : List (List Char))
    (e : LineError) :
    FirstRefused number (line :: rest) e ↔
      (e.line = number ∧ Refused line e.cause) ∨
        ((∀ cause, ¬ Refused line cause) ∧ FirstRefused (number + 1) rest e) := by
  constructor
  · rintro ⟨above, found, below, split, position, refused, passed⟩
    cases above with
    | nil =>
      obtain ⟨rfl, -⟩ := List.cons.inj split
      exact .inl ⟨position, refused⟩
    | cons first above =>
      obtain ⟨rfl, others⟩ := List.cons.inj split
      rw [List.forall_mem_cons] at passed
      rw [List.length_cons] at position
      exact .inr ⟨passed.1, above, found, below, others, by omega, refused, passed.2⟩
  · rintro (⟨position, refused⟩ | ⟨passes, above, found, below, rfl, position, refused, passed⟩)
    · exact ⟨[], line, rest, rfl, position, refused, by simp⟩
    · refine ⟨line :: above, found, below, rfl, ?_, refused, ?_⟩
      · rw [List.length_cons]
        omega
      · rw [List.forall_mem_cons]
        exact ⟨passes, passed⟩

/-- The error when `count` more lines stand above it. -/
def LineError.shift (count : Nat) (e : LineError) : LineError :=
  { e with line := e.line + count }

/-- The error once `count` lines have been put in front of line number `first`. -/
def LineError.insertAt (first count : Nat) (e : LineError) : LineError :=
  if first ≤ e.line then e.shift count else e

namespace Draft

variable {d : Draft}

/-- The answer to an expression is that of a draft without anything in it, apart
from the number of the constraint. -/
theorem fst_parseExpression (h : d.WellFormed) (text : List Char) :
    (d.parseExpression text).1
      = (({} : Draft).parseExpression text).1.map fun _ => d.constraints.size := by
  cases read : Expression.parse text with
  | error cause => simp [parseExpression, read, Except.map]
  | ok e =>
    have written := (Expression.parse_eq_ok_iff text e).mp read
    rw [parseExpression_of_written h written, parseExpression_of_written wellFormed_empty written]
    split <;> rfl

/-! ## 2. Lines in order -/

section Lines

variable {line : List Char} {rest : List (List Char)} {number : Nat}

theorem parseLines_cons (d : Draft) (number : Nat) (line : List Char) (rest : List (List Char)) :
    d.parseLines number (line :: rest) =
      if isSkipped (Text.trim line) then d.parseLines (number + 1) rest
      else
        match d.parseExpression (Text.trim line) with
        | (.ok _, d) => d.parseLines (number + 1) rest
        | (.error cause, _) => .error ⟨number, cause⟩ :=
  rfl

theorem parseLines_of_skipped (skipped : isSkipped (Text.trim line) = true) :
    d.parseLines number (line :: rest) = d.parseLines (number + 1) rest := by
  rw [parseLines_cons, if_pos skipped]

theorem parseLines_of_accepted (h : d.WellFormed)
    (significant : isSkipped (Text.trim line) = false) {id : Nat}
    (accepted : (({} : Draft).parseExpression (Text.trim line)).1 = .ok id) :
    d.parseLines number (line :: rest)
      = (d.parseExpression (Text.trim line)).2.parseLines (number + 1) rest := by
  have answer := fst_parseExpression h (Text.trim line)
  rw [accepted] at answer
  rw [parseLines_cons, significant, if_neg Bool.false_ne_true]
  split
  · next read => rw [read]
  · next read => rw [read] at answer; simp [Except.map] at answer

theorem parseLines_of_refused (h : d.WellFormed) {cause : ExpressionError}
    (refused : Refused line cause) :
    d.parseLines number (line :: rest) = .error ⟨number, cause⟩ := by
  have answer := fst_parseExpression h (Text.trim line)
  rw [refused.answer] at answer
  rw [parseLines_cons, refused.significant, if_neg Bool.false_ne_true]
  split
  · next read => rw [read] at answer; simp [Except.map] at answer
  · next read =>
    rw [read] at answer
    rw [Except.error.inj answer]

end Lines

/-- The operation that reads a line. -/
def Step.ofLine (line : List Char) : Step :=
  .parse (String.ofList line)

theorem snd_perform_ofLine (d : Draft) (line : List Char) :
    (d.perform (.ofLine line)).2 = (d.parseExpression line).2 := by
  rw [Step.ofLine, snd_perform_parse, String.toList_ofList]

/-- Lines are read when each significant one is accepted on its own, and the draft
is then what reading these one after the other leaves. -/
theorem parseLines_eq_ok_iff_accepted (lines : List (List Char)) :
    ∀ {d d' : Draft} {number : Nat}, d.WellFormed →
      (d.parseLines number lines = .ok d' ↔
        (∀ line ∈ significant lines, ∃ id, (({} : Draft).parseExpression line).1 = .ok id) ∧
          d' = (d.performAll ((significant lines).map .ofLine)).2) := by
  induction lines with
  | nil =>
    intro d d' number h
    simp [parseLines, significant, performAll, eq_comm]
  | cons line rest ih =>
    intro d d' number h
    rw [significant_cons]
    rcases exists_refused_or line with skipped | ⟨kept, id, accepted⟩ | ⟨cause, refused⟩
    · rw [parseLines_of_skipped skipped, if_pos skipped]
      exact ih h
    · have first : ∃ id, (({} : Draft).parseExpression (Text.trim line)).1 = .ok id :=
        ⟨id, accepted⟩
      have next : (d.performAll ((Text.trim line :: significant rest).map .ofLine)).2
          = ((d.parseExpression (Text.trim line)).2.performAll
              ((significant rest).map .ofLine)).2 := by
        rw [← snd_perform_ofLine]
        rfl
      rw [parseLines_of_accepted h kept accepted, kept, if_neg Bool.false_ne_true,
        ih (h.parseExpression _), next, List.forall_mem_cons]
      simp only [first, true_and]
    · rw [parseLines_of_refused h refused, refused.significant, if_neg Bool.false_ne_true,
        List.forall_mem_cons, refused.answer]
      simp

/-- The error is that of the first line that is refused on its own. -/
theorem parseLines_eq_error_iff (lines : List (List Char)) :
    ∀ {d : Draft} {number : Nat} {e : LineError}, d.WellFormed →
      (d.parseLines number lines = .error e ↔ FirstRefused number lines e) := by
  induction lines with
  | nil =>
    intro d number e h
    simp [parseLines, not_firstRefused_nil]
  | cons line rest ih =>
    intro d number e h
    rw [firstRefused_cons]
    rcases exists_refused_or line with skipped | ⟨kept, id, accepted⟩ | ⟨cause, refused⟩
    · have passes := not_refused_of_skipped skipped
      rw [parseLines_of_skipped skipped, ih h]
      simp [passes]
    · have passes := not_refused_of_accepted accepted
      rw [parseLines_of_accepted h kept accepted, ih (h.parseExpression _)]
      simp [passes]
    · rw [parseLines_of_refused h refused]
      constructor
      · intro same
        obtain rfl := Except.error.inj same
        exact .inl ⟨rfl, refused⟩
      · rintro (⟨position, here⟩ | ⟨passes, -⟩)
        · rw [refused.cause_eq here, ← position]
        · exact absurd refused (passes cause)

/-! ## 3. Lines that are skipped -/

theorem parseLines_append (above below : List (List Char)) :
    ∀ (d : Draft) (number : Nat), d.parseLines number (above ++ below) =
      match d.parseLines number above with
      | .ok d' => d'.parseLines (number + above.length) below
      | .error e => .error e := by
  induction above with
  | nil => exact fun d number => rfl
  | cons line rest ih =>
    intro d number
    have next : number + (line :: rest).length = number + 1 + rest.length := by
      rw [List.length_cons]
      omega
    rw [List.cons_append, parseLines_cons, parseLines_cons, next]
    split
    · exact ih d (number + 1)
    · split
      · exact ih _ (number + 1)
      · rfl

theorem parseLines_of_all_skipped {lines : List (List Char)}
    (skipped : ∀ line ∈ lines, isSkipped (Text.trim line) = true) (d : Draft) (number : Nat) :
    d.parseLines number lines = .ok d := by
  induction lines generalizing number with
  | nil => rfl
  | cons line rest ih =>
    rw [List.forall_mem_cons] at skipped
    rw [parseLines_of_skipped skipped.1]
    exact ih skipped.2 (number + 1)

/-- Where the count of the lines starts only shifts the number in an error. -/
theorem parseLines_add (count : Nat) (lines : List (List Char)) :
    ∀ (d : Draft) (number : Nat), d.parseLines (number + count) lines
      = (d.parseLines number lines).mapError (·.shift count) := by
  induction lines with
  | nil => exact fun d number => rfl
  | cons line rest ih =>
    intro d number
    have next : number + count + 1 = number + 1 + count := by omega
    rw [parseLines_cons, parseLines_cons, next]
    split
    · exact ih d (number + 1)
    · split
      · exact ih _ (number + 1)
      · rfl

/-- The number in an error is that of one of the lines. -/
theorem line_of_parseLines_eq_error (lines : List (List Char)) :
    ∀ {d : Draft} {number : Nat} {e : LineError}, d.parseLines number lines = .error e →
      number ≤ e.line ∧ e.line < number + lines.length := by
  induction lines with
  | nil => intro d number e failed; simp [parseLines] at failed
  | cons line rest ih =>
    intro d number e failed
    rw [List.length_cons]
    rw [parseLines_cons] at failed
    split at failed
    · have := ih failed
      omega
    · split at failed
      · have := ih failed
        omega
      · obtain rfl := Except.error.inj failed
        dsimp only
        omega

/-- Skipped lines that are inserted only shift the errors below them. -/
theorem parseLines_insert {inserted : List (List Char)}
    (skipped : ∀ line ∈ inserted, isSkipped (Text.trim line) = true)
    (above below : List (List Char)) (d : Draft) (number : Nat) :
    d.parseLines number (above ++ inserted ++ below)
      = (d.parseLines number (above ++ below)).mapError
          (·.insertAt (number + above.length) inserted.length) := by
  rw [parseLines_append, parseLines_append above inserted, parseLines_append above below]
  cases upper : d.parseLines number above with
  | error e =>
    have inside := line_of_parseLines_eq_error above upper
    have before : ¬ number + above.length ≤ e.line := by omega
    simp [Except.mapError, LineError.insertAt, before]
  | ok d' =>
    have start : number + (above ++ inserted).length
        = number + above.length + inserted.length := by
      rw [List.length_append, Nat.add_assoc]
    simp only [parseLines_of_all_skipped skipped d', start]
    rw [parseLines_add inserted.length]
    cases lower : d'.parseLines (number + above.length) below with
    | ok d'' => rfl
    | error e =>
      have inside := line_of_parseLines_eq_error below lower
      simp [Except.mapError, LineError.insertAt, inside.1]

/-- Only the trimmed lines matter. -/
theorem parseLines_congr (lines : List (List Char)) :
    ∀ {lines' : List (List Char)} (d : Draft) (number : Nat),
      lines.map Text.trim = lines'.map Text.trim →
        d.parseLines number lines = d.parseLines number lines' := by
  induction lines with
  | nil =>
    intro lines' d number same
    rw [List.map_eq_nil_iff.mp same.symm]
  | cons line rest ih =>
    intro lines' d number same
    obtain ⟨line', rest', rfl, first, others⟩ := List.map_eq_cons_iff.mp same.symm
    rw [parseLines_cons, parseLines_cons, first, ih d (number + 1) others.symm]
    split
    · rfl
    · split
      · next d' _ => exact ih d' (number + 1) others.symm
      · rfl

end Draft

/-! ## 4. Texts -/

namespace Problem

theorem parse_eq_map (text : String) :
    parse text = (({} : Draft).parseLines 1 (Text.lines text.toList)).map Draft.build := by
  unfold parse
  split <;> next read => rw [read]; rfl

theorem parse_eq_ok_iff_accepted (text : String) (P : Problem) :
    parse text = .ok P ↔
      (∀ line ∈ significant (Text.lines text.toList),
        ∃ id, (({} : Draft).parseExpression line).1 = .ok id) ∧
      P = (Draft.ofSteps ((significant (Text.lines text.toList)).map .ofLine)).build := by
  rw [parse_eq_map]
  constructor
  · intro read
    cases lines : ({} : Draft).parseLines 1 (Text.lines text.toList) with
    | error e => rw [lines] at read; simp [Except.map] at read
    | ok d =>
      rw [lines] at read
      obtain ⟨accepted, rfl⟩ :=
        (Draft.parseLines_eq_ok_iff_accepted _ Draft.wellFormed_empty).mp lines
      exact ⟨accepted, (Except.ok.inj read).symm⟩
  · rintro ⟨accepted, rfl⟩
    rw [(Draft.parseLines_eq_ok_iff_accepted _ Draft.wellFormed_empty).mpr ⟨accepted, rfl⟩]
    rfl

theorem parse_eq_error_iff (text : String) (e : LineError) :
    parse text = .error e ↔ FirstRefused 1 (Text.lines text.toList) e := by
  rw [parse_eq_map, ← Draft.parseLines_eq_error_iff _ Draft.wellFormed_empty]
  cases ({} : Draft).parseLines 1 (Text.lines text.toList) <;> simp [Except.map]

/-- A line feed at the end makes no difference. -/
theorem parse_append_feed (text : String) : parse (text ++ "\n") = parse text := by
  obtain ⟨blank, empty, same⟩ := Text.exists_map_trim_lines_append_feed text.toList
  have skipped : ∀ line ∈ blank, isSkipped (Text.trim line) = true := by
    intro line hl
    rw [empty line hl]
    rfl
  have feed : (text ++ "\n").toList = text.toList ++ ['\n'] := String.toList_append
  rw [parse_eq_map, parse_eq_map, feed, Draft.parseLines_congr _ _ _ same,
    Draft.parseLines_append]
  split
  · next read => rw [read, Draft.parseLines_of_all_skipped skipped]
  · next read => rw [read]

/-- Lines that are skipped can be inserted into a text at a line boundary. -/
theorem parse_insert {above inserted : String} (below : String) (upper : EndsLine above.toList)
    (lower : EndsLine inserted.toList ∨ below = "")
    (skipped : ∀ line ∈ Text.lines inserted.toList, isSkipped (Text.trim line) = true) :
    parse (above ++ inserted ++ below)
      = (parse (above ++ below)).mapError
          (·.insertAt ((Text.lines above.toList).length + 1)
            (Text.lines inserted.toList).length) := by
  have cut : Text.lines (above ++ inserted ++ below).toList
      = Text.lines above.toList ++ Text.lines inserted.toList ++ Text.lines below.toList := by
    rw [String.toList_append, String.toList_append, List.append_assoc, Text.lines_append upper,
      List.append_assoc]
    rcases lower with ends | rfl
    · rw [Text.lines_append ends]
    · simp
  have whole : Text.lines (above ++ below).toList
      = Text.lines above.toList ++ Text.lines below.toList := by
    rw [String.toList_append, Text.lines_append upper]
  rw [parse_eq_map, parse_eq_map, cut, whole, Draft.parseLines_insert skipped,
    Nat.add_comm (Text.lines above.toList).length 1]
  cases ({} : Draft).parseLines 1 (Text.lines above.toList ++ Text.lines below.toList) <;> rfl

/-- A text is read exactly when each of its significant lines is accepted by a draft
without anything in it, and the problem is then the one that reading these lines
in order into one draft builds.  Otherwise the error has the number of the first
line that such a draft refuses, skipped lines counted, and the cause that it
gives there.  So skipped lines inserted at a line boundary, which is also where a
line feed has been added at the end, change no problem and shift exactly the
errors below them, by how many they are. -/
theorem parse_linewise :
    (∀ text : String,
      ((∃ P, parse text = .ok P) ↔ ∀ line ∈ significant (Text.lines text.toList),
        ∃ id, (({} : Draft).parseExpression line).1 = .ok id) ∧
      (∀ P, parse text = .ok P → P = (Draft.ofSteps
        ((significant (Text.lines text.toList)).map .ofLine)).build) ∧
      (∀ e, parse text = .error e ↔ FirstRefused 1 (Text.lines text.toList) e)) ∧
    (∀ above inserted below : String, EndsLine above.toList →
      EndsLine inserted.toList ∨ below = "" →
      (∀ line ∈ Text.lines inserted.toList, isSkipped (Text.trim line) = true) →
      parse (above ++ inserted ++ below)
        = (parse (above ++ below)).mapError
            (·.insertAt ((Text.lines above.toList).length + 1)
              (Text.lines inserted.toList).length)) ∧
    ∀ text : String, parse (text ++ "\n") = parse text := by
  refine ⟨fun text => ⟨?_, ?_, parse_eq_error_iff text⟩, ?_, parse_append_feed⟩
  · constructor
    · rintro ⟨P, read⟩
      exact ((parse_eq_ok_iff_accepted text P).mp read).1
    · intro accepted
      exact ⟨_, (parse_eq_ok_iff_accepted text _).mpr ⟨accepted, rfl⟩⟩
  · intro P read
    exact ((parse_eq_ok_iff_accepted text P).mp read).2
  · exact fun above inserted below upper lower skipped =>
      parse_insert below upper lower skipped

/-- A text with a comment, an empty line and two constraints,
and one in which two comments and an empty line push a refused line to number five. -/
theorem parse_linewise_sample :
    (∃ P, parse sampleText = .ok P ∧
      P = (Draft.ofSteps [.parse "b|! c,1", .parse "[+0, 02] !!! b | b | !!a"]).build) ∧
    parse "a | b\r\n # !!\n\u00A0\r\n#\n[2,1] a | c"
        = .error ⟨5, .refused (.invertedRange 2 1)⟩ ∧
    FirstRefused 1 (Text.lines "a | b\r\n[2,1] a | c".toList)
        ⟨2, .refused (.invertedRange 2 1)⟩ := by
  obtain ⟨alone, insert, -⟩ := parse_linewise
  refine ⟨?_, ?_, ((alone _).2.2 _).mp rfl⟩
  · have kept : (significant (Text.lines sampleText.toList)).map Draft.Step.ofLine
        = [.parse "b|! c,1", .parse "[+0, 02] !!! b | b | !!a"] := by decide
    have read : (parse sampleText).isOk = true := by decide
    cases h : parse sampleText with
    | error e => simp [h, Except.isOk, Except.toBool] at read
    | ok P => exact ⟨P, rfl, kept ▸ (alone _).2.1 P h⟩
  · have moved := insert "a | b\r\n" " # !!\n\u00A0\r\n#\n" "[2,1] a | c" (by decide)
      (.inl (by decide)) (by decide)
    have failed : parse ("a | b\r\n" ++ "[2,1] a | c")
        = .error ⟨2, .refused (.invertedRange 2 1)⟩ := by rfl
    rw [failed] at moved
    exact moved

end Problem

end CardinalitySearch
