/-
CardinalitySearch.Proofs.Expression.Grammar — what an expression may look like.

`Written e s` says that the text `s` is a way to write the expression `e`.  It
is put together from its parts by concatenation only:

    expression  =  blanks [ "[" numeral "," numeral "]" ] literals
    literals    =  literal { "|" literal }
    literal     =  { "!" } name

with blanks allowed around every numeral and every literal and after every
exclamation mark (`Spaced`, `Marks`).  There is no trimming, no splitting and
no counting of positions in it.

What stands at a place between bars has one of three shapes (`PlaceShape`), and a
text starts in one of three ways (`Opening`); for each of these the reader has
one result, an error included.

`parse_eq_ok_iff` says that reading accepts the texts of the grammar and no
others, and yields what they are written for.  Each part of the grammar has its
own equivalence with the function that reads it.
-/
import Mathlib.Data.List.Forall2
import CardinalitySearch.Expression.Parser
import CardinalitySearch.Proofs.Text.Cutting

namespace CardinalitySearch.Expression

open Text

/-! ## 1. The grammar -/

/-- A part with blanks around it. -/
inductive Spaced (Part : List Char → Prop) : List Char → Prop where
  | mk {before part after : List Char} (left : Blanks before) (inner : Part part)
      (right : Blanks after) : Spaced Part (before ++ part ++ after)

/-- A number up to `maximum`: one or more ASCII digits after an optional plus
sign. -/
inductive Numeral (maximum n : Nat) : List Char → Prop where
  | mk {sign ds : List Char} (signed : sign = [] ∨ sign = ['+']) (nonempty : ds ≠ [])
      (all : ∀ c ∈ ds, c.isDigit = true) (value : Nat.ofDigitChars 10 ds 0 = n)
      (small : n ≤ maximum) : Numeral maximum n (sign ++ ds)

/-- A range in brackets. -/
inductive Bracketed : Nat × Nat → List Char → Prop where
  | mk {least greatest : Nat} {s t : List Char} (first : Spaced (Numeral maxWord32 least) s)
      (second : Spaced (Numeral maxWord32 greatest) t) :
      Bracketed (least, greatest) ('[' :: (s ++ ',' :: (t ++ [']'])))

/-- The characters that never stand in a name. -/
def reserved : List Char :=
  ['!', '|', '[', ']', '#']

/-- A name: not empty, without blanks and reserved characters. -/
structure IsName (s : List Char) : Prop where
  nonempty : s ≠ []
  plain : ∀ c ∈ s, isBlank c = false ∧ c ∉ reserved

/-- Exclamation marks, as many as given, with blanks after each. -/
inductive Marks : Nat → List Char → Prop where
  | none : Marks 0 []
  | mark {n : Nat} {gap rest : List Char} (blanks : Blanks gap) (more : Marks n rest) :
      Marks (n + 1) ('!' :: (gap ++ rest))

/-- A name after exclamation marks, which is positive when their number is even. -/
inductive WrittenLiteral : SignedName → List Char → Prop where
  | mk {n : Nat} {marks name : List Char} (negations : Marks n marks) (valid : IsName name) :
      WrittenLiteral ⟨String.ofList name, n % 2 == 0⟩ (marks ++ name)

/-- Literals with bars between them, at least one. -/
inductive WrittenLiterals : List SignedName → List Char → Prop where
  | one {l : SignedName} {s : List Char} (literal : Spaced (WrittenLiteral l) s) :
      WrittenLiterals [l] s
  | more {l : SignedName} {ls : List SignedName} {s t : List Char}
      (literal : Spaced (WrittenLiteral l) s) (others : WrittenLiterals ls t) :
      WrittenLiterals (l :: ls) (s ++ '|' :: t)

/-- An expression, with or without a range in front. -/
inductive Written : Expression → List Char → Prop where
  | clause {ls : List SignedName} {s : List Char} (literals : WrittenLiterals ls s) :
      Written ⟨none, ls⟩ s
  | ranged {range : Nat × Nat} {ls : List SignedName} {before s t : List Char}
      (blanks : Blanks before) (bracketed : Bracketed range s) (literals : WrittenLiterals ls t) :
      Written ⟨some range, ls⟩ (before ++ s ++ t)

/-! ## 2. Blanks around a part -/

/-- A part that is trimmed is what trimming leaves. -/
theorem spaced_iff {Part : List Char → Prop} (trimmed : ∀ s, Part s → Trimmed s) (s : List Char) :
    Spaced Part s ↔ Part (trim s) := by
  constructor
  · rintro ⟨left, inner, right⟩
    rw [trim_append left (trimmed _ inner) right]
    exact inner
  · intro inner
    obtain ⟨u, v, hu, hv, split, -⟩ := exists_eq_append_trim s
    rw [split]
    exact ⟨hu, inner, hv⟩

/-- A character that is no blank and in no part is not in a spaced part. -/
theorem not_mem_of_spaced {Part : List Char → Prop} {c : Char} (visible : isBlank c = false)
    (other : ∀ s, Part s → c ∉ s) {s : List Char} (h : Spaced Part s) : c ∉ s := by
  obtain ⟨left, inner, right⟩ := h
  intro hc
  rw [List.mem_append, List.mem_append] at hc
  rcases hc with (hc | hc) | hc
  · simp [left c hc] at visible
  · exact other _ inner hc
  · simp [right c hc] at visible

/-! ## 3. Numerals and ranges -/

theorem isBlank_of_isDigit {c : Char} (h : c.isDigit = true) : isBlank c = false := by
  have low : '0'.toNat ≤ c.toNat ∧ c.toNat ≤ '9'.toNat := by
    simpa [Char.isDigit, UInt32.le_iff_toNat_le] using h
  obtain ⟨low, high⟩ := low
  have : '0'.toNat = 48 := rfl
  have : '9'.toNat = 57 := rfl
  simp only [isBlank, Bool.or_eq_false_iff, Bool.and_eq_false_iff, decide_eq_false_iff_not]
  omega

namespace Numeral

variable {maximum n : Nat} {s : List Char}

/-- The characters of a numeral are digits and plus signs. -/
theorem mem (h : Numeral maximum n s) : ∀ c ∈ s, c.isDigit = true ∨ c = '+' := by
  obtain ⟨signed, -, all, -, -⟩ := h
  intro c hc
  rcases List.mem_append.mp hc with hc | hc
  · rcases signed with rfl | rfl
    · simp at hc
    · exact .inr (List.mem_singleton.mp hc)
  · exact .inl (all c hc)

theorem trimmed (h : Numeral maximum n s) : Trimmed s := by
  refine trimmed_of_forall fun c hc => ?_
  rcases h.mem c hc with digit | rfl
  · exact isBlank_of_isDigit digit
  · decide

theorem not_mem {c : Char} (other : c.isDigit = false) (noPlus : c ≠ '+')
    (h : Numeral maximum n s) : c ∉ s := by
  intro hc
  rcases h.mem c hc with digit | plus
  · simp [other] at digit
  · exact noPlus plus

end Numeral

theorem digits?_eq_some_iff (s : List Char) (n : Nat) :
    digits? s = some n ↔
      s ≠ [] ∧ (∀ c ∈ s, c.isDigit = true) ∧ Nat.ofDigitChars 10 s 0 = n := by
  unfold digits?
  rw [← Nat.ofDigitChars_eq_foldl]
  cases s <;> simp [and_assoc]

theorem exists_eq_append_dropPlus (s : List Char) :
    ∃ sign, (sign = [] ∨ sign = ['+']) ∧ s = sign ++ dropPlus s := by
  unfold dropPlus
  split
  · exact ⟨['+'], .inr rfl, rfl⟩
  · exact ⟨[], .inl rfl, rfl⟩

theorem dropPlus_append {sign ds : List Char} (signed : sign = [] ∨ sign = ['+'])
    (nonempty : ds ≠ []) (all : ∀ c ∈ ds, c.isDigit = true) : dropPlus (sign ++ ds) = ds := by
  rcases signed with rfl | rfl
  · obtain ⟨c, rest, rfl⟩ := List.exists_cons_of_ne_nil nonempty
    have digit := all c (by simp)
    have : c ≠ '+' := by
      rintro rfl
      simp at digit
    simp [dropPlus, this]
  · rfl

/-- Reading a numeral gives its value, and nothing else is read as one. -/
theorem numeral?_eq_some_iff (maximum : Nat) (s : List Char) (n : Nat) :
    numeral? maximum s = some n ↔ Numeral maximum n s := by
  unfold numeral?
  rw [Option.filter_eq_some_iff, digits?_eq_some_iff, decide_eq_true_eq]
  constructor
  · rintro ⟨⟨nonempty, all, value⟩, small⟩
    obtain ⟨sign, signed, split⟩ := exists_eq_append_dropPlus s
    rw [split]
    exact ⟨signed, nonempty, all, value, small⟩
  · rintro ⟨signed, nonempty, all, value, small⟩
    rw [dropPlus_append signed nonempty all]
    exact ⟨⟨nonempty, all, value⟩, small⟩

/-- Reading what stands between brackets gives the two numbers. -/
theorem range?_eq_some_iff (inside : List Char) (least greatest : Nat) :
    range? inside = some (least, greatest) ↔
      ∃ s t, Spaced (Numeral maxWord32 least) s ∧ Spaced (Numeral maxWord32 greatest) t ∧
        inside = s ++ ',' :: t := by
  have read : ∀ (n : Nat) (s : List Char),
      numeral? maxWord32 (trim s) = some n ↔ Spaced (Numeral maxWord32 n) s := by
    intro n s
    rw [numeral?_eq_some_iff, spaced_iff fun _ h => h.trimmed]
  constructor
  · intro h
    unfold range? at h
    split at h
    · next s comma t found =>
      obtain ⟨split, -⟩ := eq_of_cut_eq found
      split at h
      · next first second =>
        simp only [Option.some.injEq, Prod.mk.injEq] at h
        obtain ⟨rfl, rfl⟩ := h
        exact ⟨s, t, (read _ s).mp first, (read _ t).mp second, split⟩
      · simp at h
    · simp at h
  · rintro ⟨s, t, first, second, rfl⟩
    have noComma : ',' ∉ s :=
      not_mem_of_spaced (by decide) (fun _ h => h.not_mem (by decide) (by decide)) first
    unfold range?
    rw [cut_append_cons noComma]
    simp [(read _ s).mpr first, (read _ t).mpr second]

/-- The brackets of a range enclose what is read between them. -/
theorem bracketed_iff (range : Nat × Nat) (s : List Char) :
    Bracketed range s ↔ ∃ inside, range? inside = some range ∧ ']' ∉ inside ∧
      s = '[' :: (inside ++ [']']) := by
  obtain ⟨least, greatest⟩ := range
  constructor
  · rintro ⟨first, second⟩
    next s t =>
      refine ⟨s ++ ',' :: t, (range?_eq_some_iff _ _ _).mpr ⟨s, t, first, second, rfl⟩, ?_, ?_⟩
      · have noBracket : ∀ {n : Nat} {u : List Char}, Spaced (Numeral maxWord32 n) u → ']' ∉ u :=
          fun h => not_mem_of_spaced (by decide) (fun _ h => h.not_mem (by decide) (by decide)) h
        simp [noBracket first, noBracket second]
      · simp
  · rintro ⟨inside, read, -, rfl⟩
    obtain ⟨s, t, first, second, rfl⟩ := (range?_eq_some_iff _ _ _).mp read
    have shape := Bracketed.mk first second
    simpa using shape

/-! ## 4. Literals -/

theorem isNameChar_iff (c : Char) :
    isNameChar c = true ↔ isBlank c = false ∧ c ∉ reserved := by
  simp [isNameChar, reserved, and_assoc]

theorem isMark_eq_false_iff (c : Char) : isMark c = false ↔ c ≠ '!' ∧ isBlank c = false := by
  simp [isMark]

namespace IsName

variable {s : List Char}

theorem isMark_head (h : IsName s) : ∀ c ∈ s.head?, isMark c = false := by
  intro c hc
  obtain ⟨visible, free⟩ := h.plain c (List.mem_of_head? hc)
  rw [isMark_eq_false_iff]
  refine ⟨?_, visible⟩
  rintro rfl
  exact free (by decide)

theorem trimmed (h : IsName s) : Trimmed s :=
  trimmed_of_forall fun c hc => (h.plain c hc).1

end IsName

namespace Marks

variable {n : Nat} {s : List Char}

/-- Marks and blanks, with so many marks among them. -/
theorem mem_and_count (h : Marks n s) : (∀ c ∈ s, isMark c = true) ∧ s.count '!' = n := by
  induction h with
  | none => simp
  | @mark n gap rest blanks more ih =>
    obtain ⟨all, count⟩ := ih
    have noMark : gap.count '!' = 0 := by
      rw [List.count_eq_zero]
      exact fun hc => absurd (blanks _ hc) (by decide)
    refine ⟨?_, ?_⟩
    · intro c hc
      rw [List.mem_cons, List.mem_append] at hc
      rcases hc with rfl | hc | hc
      · decide
      · simp [isMark, blanks c hc]
      · exact all c hc
    · simp [noMark, count]

theorem head (h : Marks n s) : ∀ c ∈ s.head?, c = '!' := by
  cases h with
  | none => simp
  | mark => simp

/-- A run of marks and blanks that does not start with a blank is of this form. -/
theorem of_mem {s : List Char} (all : ∀ c ∈ s, isMark c = true)
    (visible : ∀ c ∈ s.head?, isBlank c = false) : Marks (s.count '!') s := by
  have loose : ∀ s : List Char, (∀ c ∈ s, isMark c = true) →
      ∃ gap rest, Blanks gap ∧ s = gap ++ rest ∧ Marks (s.count '!') rest := by
    intro s
    induction s with
    | nil => exact fun _ => ⟨[], [], blanks_nil, rfl, .none⟩
    | cons c s ih =>
      intro all
      rw [List.forall_mem_cons] at all
      obtain ⟨gap, rest, blanks, split, marks⟩ := ih all.2
      by_cases mark : c = '!'
      · subst mark
        refine ⟨[], '!' :: s, blanks_nil, rfl, ?_⟩
        rw [List.count_cons_self, split]
        rw [split] at marks
        exact .mark blanks marks
      · have blank : isBlank c = true := by simpa [isMark, mark] using all.1
        refine ⟨c :: gap, rest, ?_, by rw [split, List.cons_append], ?_⟩
        · exact List.forall_mem_cons.mpr ⟨blank, blanks⟩
        · rw [List.count_cons_of_ne mark]
          exact marks
  obtain ⟨gap, rest, blanks, split, marks⟩ := loose s all
  cases gap with
  | nil =>
    rw [List.nil_append] at split
    rw [← split] at marks
    exact marks
  | cons c gap =>
    have blank := blanks c (by simp)
    rw [visible c (by simp [split])] at blank
    exact absurd blank Bool.false_ne_true

/-- The marks at the start of a trimmed text. -/
theorem takeWhile {s : List Char} (visible : ∀ c ∈ s.head?, isBlank c = false) :
    Marks ((s.takeWhile isMark).count '!') (s.takeWhile isMark) := by
  refine .of_mem (List.all_eq_true.mp List.all_takeWhile) fun c hc => visible c ?_
  rw [List.head?_takeWhile] at hc
  exact (Option.filter_eq_some_iff.mp hc).1

end Marks

/-- Marks in front of what is trimmed leave it trimmed. -/
theorem Marks.trimmed_append {n : Nat} {s t : List Char} (marks : Marks n s) (nonempty : t ≠ [])
    (trimmed : Trimmed t) : Trimmed (s ++ t) := by
  refine ⟨?_, ?_⟩
  · intro c hc
    cases s with
    | nil => exact trimmed.head c hc
    | cons d rest =>
      obtain rfl : d = c := by simpa using hc
      rw [marks.head d rfl]
      decide
  · intro c hc
    rw [List.getLast?_append_of_ne_nil _ nonempty] at hc
    exact trimmed.last c hc

theorem WrittenLiteral.trimmed {l : SignedName} {s : List Char} (h : WrittenLiteral l s) :
    Trimmed s := by
  obtain ⟨marks, name⟩ := h
  exact marks.trimmed_append name.nonempty name.trimmed

/-- The characters of a literal are marks, blanks and characters of its name. -/
theorem WrittenLiteral.not_mem_bar {l : SignedName} {s : List Char} (h : WrittenLiteral l s) :
    '|' ∉ s := by
  obtain ⟨marks, name⟩ := h
  intro hc
  rcases List.mem_append.mp hc with hc | hc
  · exact absurd (marks.mem_and_count.1 _ hc) (by decide)
  · exact (name.plain _ hc).2 (by decide)

/-- What may stand at a place: blanks only, marks without a name, or marks and what should
be a name. -/
inductive PlaceShape : List Char → Prop where
  | blank {place : List Char} (blanks : Blanks place) : PlaceShape place
  | marked {gap marks : List Char} (blanks : Blanks gap) (only : ∀ c ∈ marks, isMark c = true) :
      PlaceShape (gap ++ '!' :: marks)
  | named {n : Nat} {gap marks name after : List Char} (left : Blanks gap)
      (negations : Marks n marks) (nonempty : name ≠ []) (trimmed : Trimmed name)
      (unmarked : ∀ c ∈ name.head?, isMark c = false) (right : Blanks after) :
      PlaceShape (gap ++ (marks ++ name) ++ after)

/-- Every place is of one of these shapes. -/
theorem placeShape (place : List Char) : PlaceShape place := by
  obtain ⟨gap, after, left, right, split, trimmed⟩ := exists_eq_append_trim place
  by_cases nothing : trim place = []
  · rw [trim_eq_nil_iff, all_isBlank_iff] at nothing
    exact .blank nothing
  rw [split]
  generalize trim place = literal at trimmed nothing
  by_cases unnamed : literal.dropWhile isMark = []
  · rw [dropWhile_eq_nil_iff_all, List.all_eq_true] at unnamed
    obtain ⟨c, marks, rfl⟩ := List.exists_cons_of_ne_nil nothing
    rw [List.forall_mem_cons] at unnamed
    -- the first character is a mark or a blank, and it is no blank
    obtain rfl : c = '!' := by simpa [isMark, trimmed.head c rfl] using unnamed.1
    rw [List.append_assoc, List.cons_append]
    refine .marked left fun d hd => ?_
    rcases List.mem_append.mp hd with inside | behind
    · exact unnamed.2 d inside
    · simp [isMark, right d behind]
  · have head := head?_dropWhile isMark literal
    have last := List.getLast?_append_of_ne_nil (literal.takeWhile isMark) unnamed
    rw [List.takeWhile_append_dropWhile] at last
    have trimmedName : Trimmed (literal.dropWhile isMark) :=
      ⟨fun c hc => ((isMark_eq_false_iff c).mp (head c hc)).2,
        fun c hc => trimmed.last c (last ▸ hc)⟩
    have shape : PlaceShape _ :=
      .named left (Marks.takeWhile trimmed.head) unnamed trimmedName head right
    rwa [List.takeWhile_append_dropWhile] at shape

section Reading

variable {start n : Nat} {place gap marks name after : List Char}

theorem parseLiteral_of_blanks (blanks : Blanks place) :
    parseLiteral start place = .error (.missingLiteral start) := by
  rw [← all_isBlank_iff, ← trim_eq_nil_iff] at blanks
  unfold parseLiteral
  rw [blanks]
  rfl

theorem parseLiteral_of_marked (blanks : Blanks gap) (only : ∀ c ∈ marks, isMark c = true) :
    parseLiteral start (gap ++ '!' :: marks)
      = .error (.danglingNegation (start + byteLength gap)) := by
  obtain ⟨_, _, _, _, split, _⟩ := exists_eq_append_trim (gap ++ '!' :: marks)
  have nonempty : trim (gap ++ '!' :: marks) ≠ [] := by
    rw [Ne, trim_eq_nil_iff, all_isBlank_iff]
    exact fun blank => absurd (blank '!' (by simp)) (by decide)
  have nothing : (trim (gap ++ '!' :: marks)).dropWhile isMark = [] := by
    rw [dropWhile_eq_nil_iff_all, List.all_eq_true]
    intro c hc
    have inside : c ∈ gap ++ '!' :: marks := by
      rw [split]
      simp [hc]
    rw [List.mem_append, List.mem_cons] at inside
    rcases inside with before | rfl | behind
    · simp [isMark, blanks c before]
    · decide
    · exact only c behind
  have front : (gap ++ '!' :: marks).takeWhile isBlank = gap :=
    takeWhile_append blanks (by simp; decide)
  unfold parseLiteral
  dsimp only
  rw [nothing, front, if_neg (by simpa using nonempty)]
  rfl

theorem parseLiteral_of_named (left : Blanks gap) (negations : Marks n marks)
    (nonempty : name ≠ []) (trimmed : Trimmed name)
    (unmarked : ∀ c ∈ name.head?, isMark c = false) (right : Blanks after) :
    parseLiteral start (gap ++ (marks ++ name) ++ after)
      = if name.all isNameChar then .ok ⟨String.ofList name, n % 2 == 0⟩
        else .error (.invalidName (String.ofList name)) := by
  obtain ⟨all, count⟩ := negations.mem_and_count
  have literal := trim_append left (negations.trimmed_append nonempty trimmed) right
  have front := takeWhile_append all unmarked
  have back := dropWhile_append all unmarked
  unfold parseLiteral
  dsimp only
  rw [literal, front, back, count, if_neg (by simp [nonempty]), if_neg (by simp [nonempty])]

end Reading

/-- Reading one place gives the literal that is written there. -/
theorem parseLiteral_eq_ok_iff (start : Nat) (place : List Char) (l : SignedName) :
    parseLiteral start place = .ok l ↔ Spaced (WrittenLiteral l) place := by
  constructor
  · intro read
    cases placeShape place with
    | blank blanks => simp [parseLiteral_of_blanks blanks] at read
    | marked blanks only => simp [parseLiteral_of_marked blanks only] at read
    | named left negations nonempty trimmed unmarked right =>
      rw [parseLiteral_of_named left negations nonempty trimmed unmarked right] at read
      split at read
      · next plain =>
        obtain rfl := Except.ok.inj read
        rw [List.all_eq_true] at plain
        have name : IsName _ := ⟨nonempty, fun c hc => (isNameChar_iff c).mp (plain c hc)⟩
        exact ⟨left, ⟨negations, name⟩, right⟩
      · simp at read
  · rintro ⟨left, ⟨negations, name⟩, right⟩
    rw [parseLiteral_of_named left negations name.nonempty name.trimmed name.isMark_head right,
      if_pos (List.all_eq_true.mpr fun c hc => (isNameChar_iff c).mpr (name.plain c hc))]

/-- Reading the places gives the literals that are written there. -/
theorem parseLiterals_eq_ok_iff (places : List (List Char)) :
    ∀ (start : Nat) (ls : List SignedName), parseLiterals start places = .ok ls ↔
      List.Forall₂ (fun l place => Spaced (WrittenLiteral l) place) ls places := by
  induction places with
  | nil =>
    intro start ls
    simp [parseLiterals, eq_comm]
  | cons place rest ih =>
    intro start ls
    rw [List.forall₂_cons_right_iff]
    constructor
    · intro h
      unfold parseLiterals at h
      split at h
      · simp at h
      · next l first =>
        split at h
        · simp at h
        · next others read =>
          obtain rfl := Except.ok.inj h
          exact ⟨l, others, (parseLiteral_eq_ok_iff _ _ _).mp first, (ih _ _).mp read, rfl⟩
    · rintro ⟨l, others, first, read, rfl⟩
      unfold parseLiterals
      rw [(parseLiteral_eq_ok_iff _ _ _).mpr first]
      dsimp only
      rw [(ih _ _).mpr read]

theorem Spaced.not_mem_bar {l : SignedName} {s : List Char} (h : Spaced (WrittenLiteral l) s) :
    '|' ∉ s :=
  not_mem_of_spaced (by decide) (fun _ h => h.not_mem_bar) h

/-- Literals with bars between them are literals at the places between the bars. -/
theorem writtenLiterals_iff (ls : List SignedName) (s : List Char) :
    WrittenLiterals ls s ↔
      List.Forall₂ (fun l place => Spaced (WrittenLiteral l) place) ls (pieces '|' s) := by
  constructor
  · intro h
    induction h with
    | one literal =>
      rw [pieces_of_not_mem literal.not_mem_bar]
      exact .cons literal .nil
    | more literal _ ih =>
      rw [pieces_append_cons literal.not_mem_bar]
      exact .cons literal ih
  · induction s using marks_induction '|' generalizing ls with
    | last s plain =>
      rw [pieces_of_not_mem plain]
      intro h
      obtain ⟨l, others, literal, nothing, rfl⟩ := List.forall₂_cons_right_iff.mp h
      obtain rfl := List.forall₂_nil_right_iff.mp nothing
      exact .one literal
    | more s t plain ih =>
      rw [pieces_append_cons plain]
      intro h
      obtain ⟨l, others, literal, more, rfl⟩ := List.forall₂_cons_right_iff.mp h
      exact .more literal (ih others more)

/-! ## 5. Expressions -/

/-- A literal starts with something that is neither a blank nor a bracket. -/
theorem WrittenLiteral.exists_head {l : SignedName} {s : List Char} (h : WrittenLiteral l s) :
    ∃ c rest, s = c :: rest ∧ isBlank c = false ∧ c ≠ '[' := by
  have trimmed := h.trimmed
  obtain ⟨marks, name⟩ := h
  next n marks' name' =>
    cases marks' with
    | nil =>
      obtain ⟨c, rest, rfl⟩ := List.exists_cons_of_ne_nil name.nonempty
      obtain ⟨visible, free⟩ := name.plain c (by simp)
      refine ⟨c, rest, rfl, visible, ?_⟩
      rintro rfl
      exact free (by decide)
    | cons d rest =>
      obtain rfl := marks.head d rfl
      exact ⟨'!', rest ++ name', rfl, by decide, by decide⟩

theorem WrittenLiterals.exists_head {ls : List SignedName} {s : List Char}
    (h : WrittenLiterals ls s) :
    ∃ before c rest, s = before ++ c :: rest ∧ Blanks before ∧ isBlank c = false ∧ c ≠ '[' := by
  have spaced : ∀ {l : SignedName} {t : List Char}, Spaced (WrittenLiteral l) t →
      ∃ before c rest, t = before ++ c :: rest ∧ Blanks before ∧ isBlank c = false ∧ c ≠ '[' := by
    rintro l _ ⟨left, inner, right⟩
    obtain ⟨c, rest, rfl, visible, other⟩ := inner.exists_head
    next before after => exact ⟨before, c, rest ++ after, by simp, left, visible, other⟩
  cases h with
  | one literal => exact spaced literal
  | @more l ls s t literal others =>
    obtain ⟨before, c, rest, rfl, blanks, visible, other⟩ := spaced literal
    exact ⟨before, c, rest ++ '|' :: t, by simp, blanks, visible, other⟩

/-- The first character that is not blank is an opening bracket; `opened` follows it. -/
def Opens (text opened : List Char) : Prop :=
  ∃ before, Blanks before ∧ text = before ++ '[' :: opened

theorem opens_iff (text opened : List Char) : Opens text opened ↔ trimLeft text = '[' :: opened := by
  constructor
  · rintro ⟨before, blanks, rfl⟩
    exact trimLeft_append blanks (by simp; decide)
  · intro start
    refine ⟨text.takeWhile isBlank, blanks_takeWhile text, ?_⟩
    rw [← start, trimLeft, List.takeWhile_append_dropWhile]

/-- How a text may start: without an opening bracket, or with one that is not closed, or with
one that is. -/
inductive Opening : List Char → Prop where
  | absent {text : List Char} (unopened : ∀ opened, ¬ Opens text opened) : Opening text
  | unclosed {before opened : List Char} (blanks : Blanks before) (never : ']' ∉ opened) :
      Opening (before ++ '[' :: opened)
  | closed {before inside body : List Char} (blanks : Blanks before) (first : ']' ∉ inside) :
      Opening (before ++ '[' :: (inside ++ ']' :: body))

/-- Every text starts in one of these ways. -/
theorem opening (text : List Char) : Opening text := by
  by_cases opens : ∃ opened, Opens text opened
  · obtain ⟨opened, before, blanks, rfl⟩ := opens
    by_cases closed : ']' ∈ opened
    · obtain ⟨inside, body, rfl, first⟩ := List.eq_append_cons_of_mem closed
      exact .closed blanks first
    · exact .unclosed blanks closed
  · exact .absent (not_exists.mp opens)

section Splitting

variable {text before opened inside body : List Char}

theorem splitRange_of_absent (unopened : ∀ opened, ¬ Opens text opened) :
    splitRange text = .ok (none, text) := by
  unfold splitRange
  split
  · next opened start => exact absurd ((opens_iff text opened).mpr start) (unopened opened)
  · rfl

theorem splitRange_of_unclosed (blanks : Blanks before) (never : ']' ∉ opened) :
    splitRange (before ++ '[' :: opened)
      = .error (.malformedRange (String.ofList (trim (before ++ '[' :: opened)))) := by
  have start := (opens_iff _ opened).mp ⟨before, blanks, rfl⟩
  have nothing := (snd_cut_eq_nil_iff ']' opened).mpr never
  unfold splitRange
  simp only [start]
  split
  · rfl
  · next found => simp [found] at nothing

theorem splitRange_of_closed (blanks : Blanks before) (first : ']' ∉ inside) :
    splitRange (before ++ '[' :: (inside ++ ']' :: body))
      = match range? inside with
        | some range => .ok (some range, body)
        | none => .error (.malformedRange (String.ofList ('[' :: (inside ++ [']'])))) := by
  have start := (opens_iff _ (inside ++ ']' :: body)).mp ⟨before, blanks, rfl⟩
  unfold splitRange
  simp only [start, cut_append_cons first]
  cases range? inside <;> rfl

end Splitting

/-- Either no range is opened and all of the text is left, or a range is read and
what follows it is left. -/
theorem splitRange_eq_ok_iff (text : List Char) (range : Option (Nat × Nat)) (body : List Char) :
    splitRange text = .ok (range, body) ↔
      (range = none ∧ body = text ∧ ∀ opened, ¬ Opens text opened) ∨
      ∃ r before s, range = some r ∧ Blanks before ∧ Bracketed r s ∧ text = before ++ s ++ body := by
  constructor
  · intro read
    cases opening text with
    | absent unopened =>
      rw [splitRange_of_absent unopened] at read
      obtain ⟨rfl, rfl⟩ := Prod.mk.inj (Except.ok.inj read)
      exact .inl ⟨rfl, rfl, unopened⟩
    | unclosed blanks never => simp [splitRange_of_unclosed blanks never] at read
    | @closed before inside rest blanks first =>
      rw [splitRange_of_closed blanks first] at read
      split at read
      · next r inner =>
        obtain ⟨rfl, rfl⟩ := Prod.mk.inj (Except.ok.inj read)
        refine .inr ⟨r, before, '[' :: (inside ++ [']']), rfl, blanks, ?_, by simp⟩
        exact (bracketed_iff _ _).mpr ⟨inside, inner, first, rfl⟩
      · simp at read
  · rintro (⟨rfl, rfl, unopened⟩ | ⟨r, before, s, rfl, blanks, bracketed, rfl⟩)
    · exact splitRange_of_absent unopened
    · obtain ⟨inside, inner, first, rfl⟩ := (bracketed_iff _ _).mp bracketed
      have whole : before ++ '[' :: (inside ++ [']']) ++ body
          = before ++ '[' :: (inside ++ ']' :: body) := by simp
      rw [whole, splitRange_of_closed blanks first, inner]

/-- Reading accepts the texts of the grammar and yields what they are written
for. -/
theorem parse_eq_ok_iff (text : List Char) (e : Expression) :
    parse text = .ok e ↔ Written e text := by
  have literals : ∀ (start : Nat) (body : List Char) (ls : List SignedName),
      parseLiterals start (pieces '|' body) = .ok ls ↔ WrittenLiterals ls body := by
    intro start body ls
    rw [parseLiterals_eq_ok_iff, writtenLiterals_iff]
  constructor
  · intro h
    unfold parse at h
    split at h
    · simp at h
    · next range body opened =>
      split at h
      · simp at h
      · split at h
        · simp at h
        · next ls read =>
          obtain rfl := Except.ok.inj h
          have written := (literals _ _ _).mp read
          rcases (splitRange_eq_ok_iff _ _ _).mp opened with
            ⟨rfl, rfl, -⟩ | ⟨r, before, s, rfl, blanks, bracketed, rfl⟩
          · exact .clause written
          · exact .ranged blanks bracketed written
  · intro h
    have accepted : ∀ {range : Option (Nat × Nat)} {ls : List SignedName} {body : List Char},
        splitRange text = .ok (range, body) → WrittenLiterals ls body →
        parse text = .ok ⟨range, ls⟩ := by
      intro range ls body opened written
      obtain ⟨before, c, rest, split, -, visible, -⟩ := written.exists_head
      have some : body.all isBlank = false := by
        rw [split]
        simp [visible]
      unfold parse
      rw [opened]
      dsimp only
      rw [some, (literals _ _ _).mpr written]
      rfl
    cases h with
    | clause written =>
      obtain ⟨before, c, rest, split, blanks, visible, other⟩ := written.exists_head
      refine accepted ((splitRange_eq_ok_iff _ _ _).mpr (.inl ⟨rfl, rfl, fun opened opens => ?_⟩))
        written
      rw [opens_iff, split, trimLeft_append blanks (by simpa using visible)] at opens
      exact other (List.cons.inj opens).1
    | ranged blanks bracketed written =>
      exact accepted
        ((splitRange_eq_ok_iff _ _ _).mpr (.inr ⟨_, _, _, rfl, blanks, bracketed, rfl⟩)) written

/-! ## 6. What has been written -/

theorem WrittenLiterals.isName {ls : List SignedName} {s : List Char} (h : WrittenLiterals ls s) :
    ∀ l ∈ ls, IsName l.name.toList := by
  have spaced : ∀ {l : SignedName} {t : List Char}, Spaced (WrittenLiteral l) t →
      IsName l.name.toList := by
    rintro l _ ⟨-, ⟨-, valid⟩, -⟩
    rwa [String.toList_ofList]
  induction h with
  | one literal => simpa using spaced literal
  | more literal _ ih => exact List.forall_mem_cons.mpr ⟨spaced literal, ih⟩

theorem WrittenLiterals.ne_nil {ls : List SignedName} {s : List Char} (h : WrittenLiterals ls s) :
    ls ≠ [] := by
  cases h <;> exact List.cons_ne_nil _ _

theorem Written.writtenLiterals {e : Expression} {s : List Char} (h : Written e s) :
    ∃ t, WrittenLiterals e.literals t := by
  cases h with
  | clause literals => exact ⟨_, literals⟩
  | ranged _ _ literals => exact ⟨_, literals⟩

theorem Written.literals_ne_nil {e : Expression} {s : List Char} (h : Written e s) :
    e.literals ≠ [] := by
  obtain ⟨t, literals⟩ := h.writtenLiterals
  exact literals.ne_nil

end CardinalitySearch.Expression
