/-
CardinalitySearch.Proofs.Expression.Printing — the text of an expression.

`written_text` says that the text of an expression is one of those the grammar
allows for it.  The expression must have literals, their names must be names,
and the numbers of its range must fit into 32 bits (`Printable`).  What has
been read is of this kind, and with its range in front it still is, unless it is
a clause with more literals than 32 bits can count.

A text of constraints also needs that the text of an expression is a line of
its own.  Its only blanks are the spaces that separate its parts, so no line
end is in it; it starts with the bracket of its range and ends in a name, so
trimming leaves it as it is and it is not skipped (`isLine_text`).
-/
import CardinalitySearch.Problem.Text
import CardinalitySearch.Proofs.Expression.Grammar

namespace CardinalitySearch.Expression

open Text

/-! ## 1. What can be printed -/

/-- The expression can be read back from its text. -/
structure Printable (e : Expression) : Prop where
  literals_ne_nil : e.literals ≠ []
  isName : ∀ s ∈ e.literals, IsName s.name.toList
  words : ∀ least greatest, e.range = some (least, greatest) →
    least ≤ maxWord32 ∧ greatest ≤ maxWord32

/-- The same constraint, with its range in front. -/
def explicit (e : Expression) (A : Arithmetic := .unlimited) : Expression :=
  ⟨some (e.bounds A), e.literals⟩

/-- The bounds of what has been read are words when the default is kept in one. -/
theorem Written.atMost_words_le {e : Expression} {s : List Char} (h : Written e s) :
    (e.bounds .words).2 ≤ maxWord32 := by
  cases h with
  | clause => exact Word.unsigned_le _
  | ranged _ bracketed _ =>
    obtain ⟨-, ⟨-, ⟨-, -, -, -, small⟩, -⟩⟩ := bracketed
    exact small

/-- What has been read can be printed with its range, if the range fits. -/
theorem Written.printable_explicit {A : Arithmetic} {e : Expression} {s : List Char}
    (h : Written e s) (ordered : (e.bounds A).1 ≤ (e.bounds A).2)
    (fits : (e.bounds A).2 ≤ maxWord32) : (e.explicit A).Printable := by
  obtain ⟨t, literals⟩ := h.writtenLiterals
  refine ⟨literals.ne_nil, literals.isName, ?_⟩
  intro least greatest range
  obtain ⟨rfl, rfl⟩ := Prod.mk.inj (Option.some.inj range)
  exact ⟨Nat.le_trans ordered fits, fits⟩

/-! ## 2. The text is of the grammar -/

theorem numeral_toString {maximum n : Nat} (h : n ≤ maximum) :
    Numeral maximum n (toString n).toList := by
  rw [Nat.toString_eq_ofList_toDigits, String.toList_ofList]
  have digits : ∀ c ∈ Nat.toDigits 10 n, c.isDigit = true := fun c hc =>
    Nat.isDigit_of_mem_toDigits (by decide) (by decide) hc
  exact .mk (.inl rfl) Nat.toDigits_ne_nil digits Nat.ofDigitChars_ten_toDigits h

theorem writtenLiteral_text {s : SignedName} (h : IsName s.name.toList) :
    WrittenLiteral s s.text.toList := by
  obtain ⟨name, positive⟩ := s
  cases positive with
  | true =>
    have written := WrittenLiteral.mk .none h
    rwa [String.ofList_toList] at written
  | false =>
    have written := WrittenLiteral.mk (.mark blanks_nil .none) h
    rw [String.ofList_toList] at written
    simpa [SignedName.text] using written

/-- The literals as they are printed. -/
def literalsText (ls : List SignedName) : List Char :=
  [' ', '|', ' '].intercalate (ls.map (·.text.toList))

theorem literalsText_cons_cons (l m : SignedName) (ls : List SignedName) :
    literalsText (l :: m :: ls) = l.text.toList ++ [' ', '|', ' '] ++ literalsText (m :: ls) := by
  simp [literalsText, List.intercalate_cons_cons]

theorem toList_text_none (ls : List SignedName) :
    (text ⟨none, ls⟩).toList = literalsText ls := by
  simp [text, literalsText, Function.comp_def]

theorem toList_text_some (least greatest : Nat) (ls : List SignedName) :
    (text ⟨some (least, greatest), ls⟩).toList
      = '[' :: ((toString least).toList ++ ',' :: ((toString greatest).toList ++ [']']))
        ++ ' ' :: literalsText ls := by
  simp [text, literalsText, Function.comp_def]

theorem writtenLiterals_literalsText {ls : List SignedName} (nonempty : ls ≠ [])
    (isName : ∀ l ∈ ls, IsName l.name.toList) :
    ∀ {before : List Char}, Blanks before → WrittenLiterals ls (before ++ literalsText ls) := by
  induction ls with
  | nil => exact absurd rfl nonempty
  | cons l rest ih =>
    intro before blanks
    rw [List.forall_mem_cons] at isName
    have first := writtenLiteral_text isName.1
    cases rest with
    | nil =>
      have spaced := Spaced.mk blanks first blanks_nil
      simpa [literalsText] using WrittenLiterals.one spaced
    | cons m rest =>
      -- the space before a bar follows a literal, the one after it precedes the next
      have space : Blanks [' '] := by simp [Blanks, isBlank]
      have others := ih (List.cons_ne_nil _ _) isName.2 space
      have written := WrittenLiterals.more (.mk blanks first space) others
      simpa [literalsText_cons_cons] using written

/-- The text of an expression is read back as that expression. -/
theorem Printable.written_text {e : Expression} (h : e.Printable) : Written e e.text.toList := by
  obtain ⟨range, ls⟩ := e
  have literals : ∀ {before : List Char}, Blanks before →
      WrittenLiterals ls (before ++ literalsText ls) :=
    writtenLiterals_literalsText h.literals_ne_nil h.isName
  cases range with
  | none =>
    rw [toList_text_none]
    exact .clause (literals blanks_nil)
  | some range =>
    obtain ⟨least, greatest⟩ := range
    obtain ⟨small, small'⟩ := h.words least greatest rfl
    have around : ∀ {n : Nat}, n ≤ maxWord32 → Spaced (Numeral maxWord32 n) (toString n).toList := by
      intro n fits
      have spaced := Spaced.mk blanks_nil (numeral_toString fits) blanks_nil
      simpa using spaced
    have space : Blanks [' '] := by simp [Blanks, isBlank]
    rw [toList_text_some]
    exact .ranged blanks_nil (.mk (around small) (around small')) (literals space)

/-! ## 3. The text is a line -/

/-- A text that is a line by itself and not one that is skipped. -/
structure IsLine (s : List Char) : Prop where
  trimmed : Trimmed s
  notSkipped : isSkipped s = false
  lineFeed_not_mem : '\n' ∉ s

theorem IsLine.getLast?_ne_return {s : List Char} (h : IsLine s) : s.getLast? ≠ some '\r' := by
  exact fun last => absurd (h.trimmed.last _ last) (by decide)

/-- There are no blanks in the text of a literal, and something is in it. -/
theorem text_ne_nil_and_visible {s : SignedName} (h : IsName s.name.toList) :
    s.text.toList ≠ [] ∧ ∀ c ∈ s.text.toList, isBlank c = false := by
  have visible : ∀ c ∈ s.name.toList, isBlank c = false := fun c hc => (h.plain c hc).1
  unfold SignedName.text
  split
  · exact ⟨h.nonempty, visible⟩
  · rw [String.toList_append]
    exact ⟨List.cons_ne_nil _ _, List.forall_mem_cons.mpr ⟨by decide, visible⟩⟩

/-- The literals as they are printed are on one line and do not end in a blank. -/
theorem literalsText_onLine {ls : List SignedName} (nonempty : ls ≠ [])
    (isName : ∀ l ∈ ls, IsName l.name.toList) :
    literalsText ls ≠ [] ∧ '\n' ∉ literalsText ls ∧
      ∀ c ∈ (literalsText ls).getLast?, isBlank c = false := by
  induction ls with
  | nil => exact absurd rfl nonempty
  | cons l rest ih =>
    rw [List.forall_mem_cons] at isName
    obtain ⟨first, visible⟩ := text_ne_nil_and_visible isName.1
    have lineFeed : '\n' ∉ l.text.toList := fun inside => absurd (visible _ inside) (by decide)
    cases rest with
    | nil =>
      have single : literalsText [l] = l.text.toList := by simp [literalsText]
      rw [single]
      exact ⟨first, lineFeed, fun c hc => visible c (List.mem_of_getLast? hc)⟩
    | cons m rest =>
      obtain ⟨more, onLine, last⟩ := ih (List.cons_ne_nil _ _) isName.2
      rw [literalsText_cons_cons]
      refine ⟨by simp, by simp [lineFeed, onLine], ?_⟩
      rwa [List.getLast?_append_of_ne_nil _ more]

/-- The text of an expression with its range in front is a line. -/
theorem Printable.isLine_text {e : Expression} (h : e.Printable) (ranged : e.range.isSome) :
    IsLine e.text.toList := by
  obtain ⟨range, ls⟩ := e
  obtain ⟨⟨least, greatest⟩, rfl⟩ := Option.isSome_iff_exists.mp ranged
  obtain ⟨nonempty, onLine, last⟩ := literalsText_onLine h.literals_ne_nil h.isName
  have digits : ∀ n : Nat, '\n' ∉ Nat.toDigits 10 n := by
    intro n
    have printed := (numeral_toString (Nat.le_refl n)).not_mem (c := '\n') (by decide) (by decide)
    simpa using printed
  rw [toList_text_some]
  refine ⟨⟨?_, ?_⟩, ?_, ?_⟩
  · intro c bracket
    obtain rfl : '[' = c := by simpa using bracket
    decide
  · rw [List.append_cons, List.getLast?_append_of_ne_nil _ nonempty]
    exact last
  · simp [isSkipped]
  · simp [digits, onLine]

end CardinalitySearch.Expression
