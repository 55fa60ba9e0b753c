/-
CardinalitySearch.Proofs.Expression.Faults — which fault of an expression is reported.

`FirstFault text e` says that `e` is the first fault of the text, from left to right:

* what should be a range is none (`MalformedRange`);
* behind the range, if there is one, there are blanks only;
* a place between bars holds no literal (`PlaceFault`), and all places before it
  hold one (`Reaches`).

Like the grammar it is put together by concatenation.  A position is the number
of bytes of a part of the text, the part before the place or before the first
exclamation mark.

`parse_eq_error_iff` says that reading reports this fault and no other.  With the
refusal of inverted ranges these are all the errors there are
(`parseExpression_first_fault`).
-/
import CardinalitySearch.Proofs.Expression.Sliced

namespace CardinalitySearch

namespace Expression

open Text

/-! ## 1. Faults -/

/-- Two numbers with a comma between them. -/
def IsRange (inside : List Char) : Prop :=
  ∃ least greatest s t, Spaced (Numeral maxWord32 least) s ∧
    Spaced (Numeral maxWord32 greatest) t ∧ inside = s ++ ',' :: t

/-- A range is opened, but it is not closed, or it is closed and is no range; `shown` is
the part of the text that is reported. -/
inductive MalformedRange : List Char → List Char → Prop where
  | unclosed {text opened : List Char} (opens : Opens text opened) (never : ']' ∉ opened) :
      MalformedRange text (trim text)
  | misformed {text inside rest : List Char} (opens : Opens text (inside ++ ']' :: rest))
      (first : ']' ∉ inside) (wrong : ¬ IsRange inside) :
      MalformedRange text ('[' :: (inside ++ [']']))

/-- What stands before the literals `body`: a range with blanks before it, or nothing if
none is opened. -/
inductive Front : List Char → List Char → Prop where
  | absent {body : List Char} (unopened : ∀ opened, ¬ Opens body opened) : Front [] body
  | range {r : Nat × Nat} {before s body : List Char} (blanks : Blanks before)
      (bracketed : Bracketed r s) : Front (before ++ s) body

/-- A place between bars, and what stands before it: nothing, or a literal with a bar
behind it and what stands before the place from there on. -/
inductive PlaceIn : List Char → List Char → List Char → Prop where
  | first {place rest : List Char} (plain : '|' ∉ place) (ends : ∀ c ∈ rest.head?, c = '|') :
      PlaceIn (place ++ rest) [] place
  | behind {l : SignedName} {s body earlier place : List Char}
      (literal : Spaced (WrittenLiteral l) s) (reached : PlaceIn body earlier place) :
      PlaceIn (s ++ '|' :: body) (s ++ '|' :: earlier) place

/-- Everything before a place is in order; `before` is that part of the text. -/
inductive Reaches : List Char → List Char → List Char → Prop where
  | mk {front body earlier place : List Char} (opened : Front front body) (some : ¬ Blanks body)
      (reached : PlaceIn body earlier place) : Reaches (front ++ body) (front ++ earlier) place

/-- What is left behind the marks of a literal and is no name. -/
structure Misnamed (s : List Char) : Prop where
  trimmed : Trimmed s
  unmarked : ∀ c ∈ s.head?, c ≠ '!'
  wrong : ∃ c ∈ s, isBlank c = true ∨ c ∈ reserved

/-- What is wrong at a place, the first byte of which is that with the number `start`. -/
inductive PlaceFault (start : Nat) : List Char → ExpressionError → Prop where
  | missing {place : List Char} (blanks : Blanks place) :
      PlaceFault start place (.missingLiteral start)
  | dangling {gap marks : List Char} (blanks : Blanks gap)
      (only : ∀ c ∈ marks, c = '!' ∨ isBlank c = true) :
      PlaceFault start (gap ++ '!' :: marks) (.danglingNegation (start + byteLength gap))
  | invalid {n : Nat} {gap marks name after : List Char} (left : Blanks gap)
      (negations : Marks n marks) (misnamed : Misnamed name) (right : Blanks after) :
      PlaceFault start (gap ++ (marks ++ name) ++ after) (.invalidName (String.ofList name))

/-- The first fault of a text. -/
inductive FirstFault : List Char → ExpressionError → Prop where
  | range {text shown : List Char} (malformed : MalformedRange text shown) :
      FirstFault text (.malformedRange (String.ofList shown))
  | empty {front body : List Char} (opened : Front front body) (blanks : Blanks body) :
      FirstFault (front ++ body) .empty
  | place {text before place : List Char} {e : ExpressionError} (reached : Reaches text before place)
      (wrong : PlaceFault (byteLength before) place e) : FirstFault text e

/-! ## 2. The range -/

theorem isRange_iff (inside : List Char) : IsRange inside ↔ range? inside ≠ none := by
  rw [Option.ne_none_iff_exists']
  constructor
  · rintro ⟨least, greatest, shape⟩
    exact ⟨(least, greatest), (range?_eq_some_iff _ _ _).mpr shape⟩
  · rintro ⟨⟨least, greatest⟩, read⟩
    exact ⟨least, greatest, (range?_eq_some_iff _ _ _).mp read⟩

/-- Splitting off the range fails for a malformed one, and reports it. -/
theorem splitRange_eq_error_iff (text : List Char) (e : ExpressionError) :
    splitRange text = .error e ↔
      ∃ shown, MalformedRange text shown ∧ e = .malformedRange (String.ofList shown) := by
  constructor
  · intro read
    cases opening text with
    | absent unopened => simp [splitRange_of_absent unopened] at read
    | @unclosed before opened blanks never =>
      rw [splitRange_of_unclosed blanks never] at read
      exact ⟨_, .unclosed ⟨before, blanks, rfl⟩ never, (Except.error.inj read).symm⟩
    | @closed before inside body blanks first =>
      rw [splitRange_of_closed blanks first] at read
      split at read
      · simp at read
      · next wrong =>
        have noRange : ¬ IsRange inside := by simp [isRange_iff, wrong]
        exact ⟨_, .misformed ⟨before, blanks, rfl⟩ first noRange, (Except.error.inj read).symm⟩
  · rintro ⟨shown, malformed, rfl⟩
    cases malformed with
    | unclosed opens never =>
      obtain ⟨before, blanks, rfl⟩ := opens
      exact splitRange_of_unclosed blanks never
    | misformed opens first wrong =>
      obtain ⟨before, blanks, rfl⟩ := opens
      rw [isRange_iff, not_not] at wrong
      rw [splitRange_of_closed blanks first, wrong]

/-- Otherwise the literals are left, which follow the range if there is one. -/
theorem splitRange_eq_ok_iff_front (text body : List Char) :
    (∃ range, splitRange text = .ok (range, body)) ↔
      ∃ front, Front front body ∧ text = front ++ body := by
  simp only [splitRange_eq_ok_iff]
  constructor
  · rintro ⟨range, ⟨rfl, rfl, unopened⟩ | ⟨r, before, s, rfl, blanks, bracketed, rfl⟩⟩
    · exact ⟨[], .absent unopened, rfl⟩
    · exact ⟨before ++ s, .range blanks bracketed, rfl⟩
  · rintro ⟨front, opened, rfl⟩
    cases opened with
    | absent unopened => exact ⟨none, .inl ⟨rfl, rfl, unopened⟩⟩
    | range blanks bracketed => exact ⟨_, .inr ⟨_, _, _, rfl, blanks, bracketed, rfl⟩⟩

/-! ## 3. One place -/

namespace Misnamed

variable {s : List Char}

theorem ne_nil (h : Misnamed s) : s ≠ [] := by
  obtain ⟨c, hc, -⟩ := h.wrong
  exact List.ne_nil_of_mem hc

theorem isMark_head (h : Misnamed s) : ∀ c ∈ s.head?, isMark c = false := fun c hc =>
  (isMark_eq_false_iff c).mpr ⟨h.unmarked c hc, h.trimmed.head c hc⟩

theorem all_isNameChar (h : Misnamed s) : s.all isNameChar = false := by
  obtain ⟨c, hc, wrong⟩ := h.wrong
  rw [List.all_eq_false]
  refine ⟨c, hc, ?_⟩
  rw [isNameChar_iff]
  rintro ⟨visible, free⟩
  rcases wrong with blank | taken
  · simp [visible] at blank
  · exact free taken

/-- A text that is like a name is none if one of its characters may not stand in a name. -/
theorem of_not_all (trimmed : Trimmed s) (unmarked : ∀ c ∈ s.head?, isMark c = false)
    (wrong : ¬ s.all isNameChar = true) : Misnamed s := by
  refine ⟨trimmed, fun c hc => ((isMark_eq_false_iff c).mp (unmarked c hc)).1, ?_⟩
  simp only [List.all_eq_true, isNameChar_iff, not_forall] at wrong
  obtain ⟨c, hc, wrong⟩ := wrong
  refine ⟨c, hc, ?_⟩
  by_cases blank : isBlank c = true
  · exact .inl blank
  · refine .inr (Classical.byContradiction fun free => wrong ⟨?_, free⟩)
    simpa using blank

end Misnamed

/-- Reading one place reports what is wrong there. -/
theorem parseLiteral_eq_error_iff (start : Nat) (place : List Char) (e : ExpressionError) :
    parseLiteral start place = .error e ↔ PlaceFault start place e := by
  constructor
  · intro read
    cases placeShape place with
    | blank blanks =>
      rw [parseLiteral_of_blanks blanks] at read
      obtain rfl := Except.error.inj read
      exact .missing blanks
    | marked blanks only =>
      rw [parseLiteral_of_marked blanks only] at read
      obtain rfl := Except.error.inj read
      exact .dangling blanks fun c hc => by simpa [isMark] using only c hc
    | named left negations nonempty trimmed unmarked right =>
      rw [parseLiteral_of_named left negations nonempty trimmed unmarked right] at read
      split at read
      · simp at read
      · next wrong =>
        obtain rfl := Except.error.inj read
        exact .invalid left negations (.of_not_all trimmed unmarked wrong) right
  · intro fault
    cases fault with
    | missing blanks => exact parseLiteral_of_blanks blanks
    | dangling blanks only =>
      exact parseLiteral_of_marked blanks fun c hc => by simpa [isMark] using only c hc
    | invalid left negations misnamed right =>
      rw [parseLiteral_of_named left negations misnamed.ne_nil misnamed.trimmed
        misnamed.isMark_head right, misnamed.all_isNameChar]
      rfl

/-! ## 4. The first faulty place -/

/-- The first piece of a text reaches to the first bar or to the end. -/
theorem exists_pieces_append_eq_cons {place rest : List Char} (plain : '|' ∉ place)
    (ends : ∀ c ∈ rest.head?, c = '|') : ∃ others, pieces '|' (place ++ rest) = place :: others := by
  cases rest with
  | nil => exact ⟨[], by rw [List.append_nil, pieces_of_not_mem plain]⟩
  | cons c t =>
    obtain rfl := ends c rfl
    exact ⟨_, pieces_append_cons plain t⟩

/-- The bytes before a place are those of the literal, its bar and what follows them. -/
theorem add_byteLength_append_bar (start : Nat) (s earlier : List Char) :
    start + byteLength (s ++ '|' :: earlier) = start + byteLength s + 1 + byteLength earlier := by
  have bar : '|'.utf8Size = 1 := by decide
  rw [byteLength_append, byteLength_cons, bar]
  omega

/-- An error is found at the first place, or behind it if a literal stands there. -/
theorem parseLiterals_cons_eq_error_iff (start : Nat) (place : List Char)
    (others : List (List Char)) (e : ExpressionError) :
    parseLiterals start (place :: others) = .error e ↔
      PlaceFault start place e ∨ ∃ l, Spaced (WrittenLiteral l) place ∧
        parseLiterals (start + byteLength place + 1) others = .error e := by
  have one : parseLiterals start (place :: others) = .error e ↔
      parseLiteral start place = .error e ∨ ∃ l, parseLiteral start place = .ok l ∧
        parseLiterals (start + byteLength place + 1) others = .error e := by
    rw [parseLiterals]
    cases parseLiteral start place with
    | error e' => simp
    | ok l => cases parseLiterals (start + byteLength place + 1) others <;> simp
  simpa only [parseLiteral_eq_error_iff, parseLiteral_eq_ok_iff] using one

/-- Reading the places of a text reports what is wrong at the first one that is faulty. -/
theorem parseLiterals_pieces_eq_error_iff (start : Nat) (body : List Char) (e : ExpressionError) :
    parseLiterals start (pieces '|' body) = .error e ↔
      ∃ earlier place, PlaceIn body earlier place ∧
        PlaceFault (start + byteLength earlier) place e := by
  constructor
  · induction body using marks_induction '|' generalizing start with
    | last s plain =>
      have here : PlaceIn (s ++ []) [] s := .first plain (by simp)
      rw [List.append_nil] at here
      rw [pieces_of_not_mem plain, parseLiterals_cons_eq_error_iff]
      rintro (fault | ⟨l, -, nothing⟩)
      · exact ⟨[], s, here, fault⟩
      · simp [parseLiterals] at nothing
    | more s t plain ih =>
      rw [pieces_append_cons plain, parseLiterals_cons_eq_error_iff]
      rintro (fault | ⟨l, literal, failed⟩)
      · exact ⟨[], s, .first plain (by simp), fault⟩
      · obtain ⟨earlier, place, reached, fault⟩ := ih _ failed
        rw [← add_byteLength_append_bar] at fault
        exact ⟨s ++ '|' :: earlier, place, .behind literal reached, fault⟩
  · rintro ⟨earlier, place, reached, fault⟩
    induction reached generalizing start with
    | first plain ends =>
      obtain ⟨others, split⟩ := exists_pieces_append_eq_cons plain ends
      rw [split, parseLiterals_cons_eq_error_iff]
      exact .inl fault
    | @behind l s body earlier place literal reached ih =>
      rw [add_byteLength_append_bar] at fault
      rw [pieces_append_cons literal.not_mem_bar, parseLiterals_cons_eq_error_iff]
      exact .inr ⟨l, literal, ih _ fault⟩

/-! ## 5. The first fault -/

/-- Reading reports the first fault of a text. -/
theorem parse_eq_error_iff (text : List Char) (e : ExpressionError) :
    parse text = .error e ↔ FirstFault text e := by
  have offset : ∀ front body : List Char,
      byteLength (front ++ body) - byteLength body = byteLength front := by
    intro front body
    rw [byteLength_append, Nat.add_sub_cancel]
  constructor
  · intro h
    unfold parse at h
    split at h
    · next failed =>
      obtain rfl := Except.error.inj h
      obtain ⟨shown, malformed, rfl⟩ := (splitRange_eq_error_iff _ _).mp failed
      exact .range malformed
    · next range body read =>
      obtain ⟨front, opened, rfl⟩ := (splitRange_eq_ok_iff_front _ _).mp ⟨range, read⟩
      split at h
      · next blanks =>
        obtain rfl := Except.error.inj h
        exact .empty opened ((all_isBlank_iff body).mp blanks)
      · next some =>
        rw [all_isBlank_iff] at some
        split at h
        · next failed =>
          obtain rfl := Except.error.inj h
          rw [offset] at failed
          obtain ⟨earlier, place, reached, fault⟩ :=
            (parseLiterals_pieces_eq_error_iff _ _ _).mp failed
          rw [← byteLength_append] at fault
          exact .place (.mk opened some reached) fault
        · simp at h
  · intro fault
    cases fault with
    | range malformed =>
      unfold parse
      rw [(splitRange_eq_error_iff _ _).mpr ⟨_, malformed, rfl⟩]
    | @empty front body opened blanks =>
      obtain ⟨range, read⟩ := (splitRange_eq_ok_iff_front _ body).mpr ⟨front, opened, rfl⟩
      unfold parse
      rw [read]
      dsimp only
      rw [if_pos ((all_isBlank_iff body).mpr blanks)]
    | @place _ before place _ reached wrong =>
      cases reached with
      | @mk front body earlier _ opened some inside =>
        obtain ⟨range, read⟩ := (splitRange_eq_ok_iff_front _ body).mpr ⟨front, opened, rfl⟩
        rw [byteLength_append] at wrong
        have failed := (parseLiterals_pieces_eq_error_iff _ _ _).mpr ⟨earlier, place, inside, wrong⟩
        unfold parse
        rw [read]
        dsimp only
        rw [if_neg (by rwa [all_isBlank_iff]), offset, failed]

/-! ## 6. What an error says -/

section Inversion

variable (text : List Char)

theorem firstFault_malformedRange_iff (range : String) :
    FirstFault text (.malformedRange range) ↔
      ∃ shown, MalformedRange text shown ∧ range = String.ofList shown := by
  constructor
  · intro fault
    cases fault with
    | range malformed => exact ⟨_, malformed, rfl⟩
    | place _ wrong => cases wrong
  · rintro ⟨shown, malformed, rfl⟩
    exact .range malformed

theorem firstFault_empty_iff :
    FirstFault text .empty ↔ ∃ front body, Front front body ∧ text = front ++ body ∧ Blanks body := by
  constructor
  · intro fault
    cases fault with
    | empty opened blanks => exact ⟨_, _, opened, rfl, blanks⟩
    | place _ wrong => cases wrong
  · rintro ⟨front, body, opened, rfl, blanks⟩
    exact .empty opened blanks

theorem firstFault_missingLiteral_iff (position : Nat) :
    FirstFault text (.missingLiteral position) ↔
      ∃ before place, Reaches text before place ∧ Blanks place ∧ position = byteLength before := by
  constructor
  · intro fault
    cases fault with
    | place reached wrong =>
      cases wrong with
      | missing blanks => exact ⟨_, _, reached, blanks, rfl⟩
  · rintro ⟨before, place, reached, blanks, rfl⟩
    exact .place reached (.missing blanks)

theorem firstFault_danglingNegation_iff (position : Nat) :
    FirstFault text (.danglingNegation position) ↔
      ∃ before gap marks, Reaches text before (gap ++ '!' :: marks) ∧ Blanks gap ∧
        (∀ c ∈ marks, c = '!' ∨ isBlank c = true) ∧ position = byteLength (before ++ gap) := by
  constructor
  · intro fault
    cases fault with
    | place reached wrong =>
      cases wrong with
      | dangling blanks only =>
        exact ⟨_, _, _, reached, blanks, only, (byteLength_append _ _).symm⟩
  · rintro ⟨before, gap, marks, reached, blanks, only, rfl⟩
    rw [byteLength_append]
    exact .place reached (.dangling blanks only)

theorem firstFault_invalidName_iff (name : String) :
    FirstFault text (.invalidName name) ↔
      ∃ before gap marks n rest after,
        Reaches text before (gap ++ (marks ++ rest) ++ after) ∧ Blanks gap ∧ Marks n marks ∧
          Misnamed rest ∧ Blanks after ∧ name = String.ofList rest := by
  constructor
  · intro fault
    cases fault with
    | place reached wrong =>
      cases wrong with
      | invalid left negations misnamed right =>
        exact ⟨_, _, _, _, _, _, reached, left, negations, misnamed, right, rfl⟩
  · rintro ⟨before, gap, marks, n, rest, after, reached, left, negations, misnamed, right, rfl⟩
    exact .place reached (.invalid left negations misnamed right)

theorem not_firstFault_refused (cause : ConstraintError) : ¬ FirstFault text (.refused cause) := by
  rw [← parse_eq_error_iff]
  exact parse_ne_refused text cause

end Inversion

end Expression

namespace Draft

open Expression Text

/-- An error is the first fault of a text, or the refusal of an inverted range of a text
without a fault. -/
theorem fst_parseExpression_eq_error_iff {d : Draft} (h : d.WellFormed) (text : List Char)
    (e : ExpressionError) :
    (d.parseExpression text).1 = .error e ↔
      FirstFault text e ∨ ∃ least greatest literals,
        Written ⟨some (least, greatest), literals⟩ text ∧ greatest < least ∧
          e = .refused (.invertedRange least greatest) := by
  rw [← parse_eq_error_iff]
  cases read : parse text with
  | error cause =>
    have failed : (d.parseExpression text).1 = .error cause := by
      rw [parseExpression, read]
    rw [failed, Except.error.injEq, Except.error.injEq]
    constructor
    · exact .inl
    · rintro (same | ⟨least, greatest, literals, written, -, -⟩)
      · exact same
      · rw [(parse_eq_ok_iff _ _).mpr written] at read
        simp at read
  | ok expression =>
    have written := (parse_eq_ok_iff _ _).mp read
    rw [parseExpression_of_written h written]
    constructor
    · intro failed
      split at failed
      · next inverted =>
        refine .inr ⟨_, _, expression.literals, ?_, inverted, (Except.error.inj failed).symm⟩
        rw [← written.eq_of_inverted inverted]
        exact written
      · simp at failed
    · rintro (failed | ⟨least, greatest, literals, written', inverted, rfl⟩)
      · simp at failed
      · rw [(parse_eq_ok_iff _ _).mpr written'] at read
        obtain rfl := Except.ok.inj read
        exact congrArg Prod.fst (if_pos inverted)

/-- Reading a text into a draft has a result with every cut of the text between two
characters, and an error says what the first fault is and where.  A malformed range comes
before the lack of literals, and that before a faulty place, the first of which counts.
Positions are numbers of bytes.  A text without a fault is only refused for an inverted
range. -/
theorem parseExpression_first_fault (steps : List Step) (text : String) :
    let d := ofSteps steps
    let answer := (d.parseExpression text.toList).1
    d.parseExpressionSliced? text.toList = some (d.parseExpression text.toList) ∧
    (∀ range, answer = .error (.malformedRange range) ↔
      ∃ shown, MalformedRange text.toList shown ∧ range = String.ofList shown) ∧
    (answer = .error .empty ↔
      ∃ front body, Front front body ∧ text.toList = front ++ body ∧ Blanks body) ∧
    (∀ position, answer = .error (.missingLiteral position) ↔
      ∃ before place, Reaches text.toList before place ∧ Blanks place ∧
        position = byteLength before) ∧
    (∀ position, answer = .error (.danglingNegation position) ↔
      ∃ before gap marks, Reaches text.toList before (gap ++ '!' :: marks) ∧ Blanks gap ∧
        (∀ c ∈ marks, c = '!' ∨ isBlank c = true) ∧ position = byteLength (before ++ gap)) ∧
    (∀ name, answer = .error (.invalidName name) ↔
      ∃ before gap marks n rest after,
        Reaches text.toList before (gap ++ (marks ++ rest) ++ after) ∧ Blanks gap ∧
          Marks n marks ∧ Misnamed rest ∧ Blanks after ∧ name = String.ofList rest) ∧
    ∀ cause, answer = .error (.refused cause) ↔
      ∃ least greatest literals, Written ⟨some (least, greatest), literals⟩ text.toList ∧
        greatest < least ∧ cause = .invertedRange least greatest := by
  intro d answer
  have wellFormed : d.WellFormed := wellFormed_ofSteps steps
  have error : ∀ e, answer = .error e ↔ _ := fst_parseExpression_eq_error_iff wellFormed text.toList
  refine ⟨parseExpressionSliced?_eq wellFormed _, fun range => ?_, ?_, fun position => ?_,
    fun position => ?_, fun name => ?_, fun cause => ?_⟩
  · simp [error, firstFault_malformedRange_iff]
  · simp [error, firstFault_empty_iff]
  · simp [error, firstFault_missingLiteral_iff]
  · simp [error, firstFault_danglingNegation_iff]
  · simp [error, firstFault_invalidName_iff]
  · simp [error, not_firstFault_refused]

/-- Three bytes of blanks, five of a range, two of a name, the bar and three of blanks stand
before the exclamation mark. -/
example : ((ofSteps []).parseExpression "\u3000[1,2]é|\u2003! !|".toList).1
    = .error (.danglingNegation 14) := by
  decide

end Draft

end CardinalitySearch
