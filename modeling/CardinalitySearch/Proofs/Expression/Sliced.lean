/-
CardinalitySearch.Proofs.Expression.Sliced — reading by offsets never stops.

`parseExpressionSliced?_eq` says that the reader that cuts texts at byte
offsets always has a result, and that it is the result of the plain one.  So
every cut falls between two characters, no difference of offsets is negative,
and no literal handed to the draft is over a proposition that does not exist.

The offsets are right because each text that is cut is known as the part before
the cut followed by the part after it, and the offset as the length of the part
before (`from?_of_eq`, `upTo?_of_eq`).
-/
import CardinalitySearch.Expression.Sliced
import CardinalitySearch.Proofs.Expression.Adding

namespace CardinalitySearch

namespace Text

/-- The blanks at the start take up the bytes by which trimming shortens the text. -/
theorem difference?_trimLeft (start : Nat) (text : List Char) :
    difference? (start + byteLength text) (byteLength (trimLeft text))
      = some (start + byteLength (text.takeWhile isBlank)) := by
  rw [← byteLength_takeWhile_add_trimLeft, ← Nat.add_assoc, difference?_add]

end Text

namespace Expression

open Text

/-- The range is split off at offsets between characters, and the rest starts where the
length of the text says. -/
theorem splitRangeSliced?_eq (text : List Char) :
    splitRangeSliced? text = some ((splitRange text).map fun (range, body) =>
      (range, body, byteLength text - byteLength body)) := by
  have trimmed : text = text.takeWhile isBlank ++ trimLeft text :=
    List.takeWhile_append_dropWhile.symm
  have removed := difference?_trimLeft 0 text
  rw [Nat.zero_add, Nat.zero_add] at removed
  unfold splitRangeSliced?
  simp only [removed, from?_of_eq trimmed, offset?_eq, Option.bind_eq_bind, Option.bind_some]
  cases opening text with
  | absent unopened =>
    rw [splitRange_of_absent unopened]
    split
    · next opened start => exact absurd ((opens_iff text opened).mpr start) (unopened opened)
    · simp [Except.map]
  | @unclosed before opened blanks never =>
    have start := (opens_iff _ opened).mp ⟨before, blanks, rfl⟩
    rw [splitRange_of_unclosed blanks never]
    simp only [start, (snd_cut_eq_nil_iff ']' opened).mpr never, if_true]
    rfl
  | @closed before inside body blanks first =>
    have start := (opens_iff _ (inside ++ ']' :: body)).mp ⟨before, blanks, rfl⟩
    have front : (before ++ '[' :: (inside ++ ']' :: body)).takeWhile isBlank = before :=
      takeWhile_append blanks (by simp; decide)
    have whole : before ++ '[' :: (inside ++ ']' :: body)
        = (before ++ '[' :: inside ++ [']']) ++ body := by simp
    have width : byteLength (before ++ '[' :: inside ++ [']'])
        = byteLength before + byteLength inside + 2 := by
      have one : '['.utf8Size = 1 ∧ ']'.utf8Size = 1 := by decide
      simp only [byteLength_append, byteLength_cons, byteLength_nil, one]
      omega
    have rest := from?_of_eq whole
    have place : byteLength (before ++ '[' :: (inside ++ ']' :: body)) - byteLength body
        = byteLength before + byteLength inside + 2 := by
      rw [whole, byteLength_append, Nat.add_sub_cancel, width]
    rw [width] at rest
    rw [splitRange_of_closed blanks first]
    simp only [start, front, cut_append_cons first, reduceCtorEq, if_false, upTo?_of_eq rfl,
      Option.bind_some, rest]
    cases range? inside with
    | none => rfl
    | some range => simp only [Except.map, place, Option.pure_def]

/-- The literal at one place is read without going below offset zero. -/
theorem parseLiteralSliced?_eq (start : Nat) (place : List Char) :
    parseLiteralSliced? start place = some (parseLiteral start place) := by
  unfold parseLiteralSliced? parseLiteral
  simp only [difference?_trimLeft, Option.bind_eq_bind, Option.bind_some]
  split
  · rfl
  · split
    · rfl
    · split <;> rfl

theorem parseLiteralsSliced?_eq (places : List (List Char)) :
    ∀ start, parseLiteralsSliced? start places = some (parseLiterals start places) := by
  induction places with
  | nil => exact fun start => rfl
  | cons place rest ih =>
    intro start
    rw [parseLiteralsSliced?, parseLiterals, parseLiteralSliced?_eq, ih]
    simp only [Option.bind_eq_bind, Option.bind_some]
    cases parseLiteral start place with
    | error e => rfl
    | ok literal => cases parseLiterals (start + byteLength place + 1) rest <;> rfl

/-- Reading an expression by offsets has the result of the plain reader. -/
theorem parseSliced?_eq (text : List Char) : parseSliced? text = some (parse text) := by
  unfold parseSliced? parse
  rw [splitRangeSliced?_eq]
  cases splitRange text with
  | error e => rfl
  | ok opened =>
    obtain ⟨range, body⟩ := opened
    have blank : (trim body).isEmpty = body.all isBlank := by
      rw [Bool.eq_iff_iff, List.isEmpty_iff, trim_eq_nil_iff]
    simp only [Except.map, Option.bind_eq_bind, Option.bind_some, blank, parseLiteralsSliced?_eq]
    split
    · rfl
    · cases parseLiterals (byteLength text - byteLength body) (pieces '|' body) <;> rfl

end Expression

namespace Draft

/-- Literals whose names have been interned are over propositions that exist. -/
theorem addConstraintKnown?_internLiterals {d : Draft} (h : d.WellFormed) {ss : List SignedName}
    (nonempty : ss ≠ []) (atLeast atMost : Nat) :
    (d.internLiterals ss).2.addConstraintKnown? (d.internLiterals ss).1 atLeast atMost
      = some ((d.internLiterals ss).2.addConstraint (d.internLiterals ss).1 atLeast atMost) := by
  unfold addConstraintKnown? addConstraint
  rw [objection?_internLiterals h nonempty]
  by_cases inverted : atMost < atLeast
  · simp only [if_pos inverted]
  · simp only [if_neg inverted]

/-- Reading an expression into a draft by offsets always has a result, that of the plain
reader. -/
theorem parseExpressionSliced?_eq {d : Draft} (h : d.WellFormed) (text : List Char) :
    d.parseExpressionSliced? text = some (d.parseExpression text) := by
  unfold parseExpressionSliced? parseExpression
  rw [Expression.parseSliced?_eq]
  cases read : Expression.parse text with
  | error e => rfl
  | ok e =>
    have nonempty := ((Expression.parse_eq_ok_iff text e).mp read).literals_ne_nil
    have known := addConstraintKnown?_internLiterals h nonempty e.bounds.1 e.bounds.2
    simp only [Option.bind_eq_bind, Option.bind_some, known, addExpression]
    obtain ⟨_ | _, _⟩ := (d.internLiterals e.literals).2.addConstraint (d.internLiterals e.literals).1
      e.bounds.1 e.bounds.2 <;> rfl

end Draft

end CardinalitySearch
