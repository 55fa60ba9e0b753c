/-
CardinalitySearch.Text.Blank — white space.

A character is blank when it has the Unicode property White_Space.  A text is
a list of characters here, and a position in it is counted in bytes of its
UTF-8 form.
-/

namespace CardinalitySearch.Text

/-- The characters with the Unicode property White_Space. -/
def isBlank (c : Char) : Bool :=
  let n := c.toNat
  (0x9 ≤ n && n ≤ 0xD) || n = 0x20 || n = 0x85 || n = 0xA0 || n = 0x1680
    || (0x2000 ≤ n && n ≤ 0x200A) || n = 0x2028 || n = 0x2029 || n = 0x202F || n = 0x205F
    || n = 0x3000

/-- The number of bytes of the UTF-8 form. -/
def byteLength (text : List Char) : Nat :=
  text.foldr (fun c bytes => c.utf8Size + bytes) 0

/-- The text without the blanks at its start. -/
def trimLeft (text : List Char) : List Char :=
  text.dropWhile isBlank

/-- The text without the blanks at its end. -/
def trimRight (text : List Char) : List Char :=
  (text.reverse.dropWhile isBlank).reverse

/-- The text without the blanks at either end. -/
def trim (text : List Char) : List Char :=
  trimRight (trimLeft text)

/-- The ASCII white space of the core library is blank. -/
theorem isBlank_of_isWhitespace {c : Char} (h : c.isWhitespace = true) :
    isBlank c = true := by
  simp only [Char.isWhitespace, Bool.or_eq_true, decide_eq_true_eq] at h
  rcases h with ((h | h) | h) | h <;> subst h <;> decide

@[simp] theorem byteLength_nil : byteLength [] = 0 := rfl

@[simp] theorem byteLength_cons (c : Char) (text : List Char) :
    byteLength (c :: text) = c.utf8Size + byteLength text := rfl

@[simp] theorem byteLength_append (s t : List Char) :
    byteLength (s ++ t) = byteLength s + byteLength t := by
  induction s with
  | nil => simp
  | cons c rest ih => simp [ih, Nat.add_assoc]

/-- The bytes cut off at the start are those of the blanks there. -/
theorem byteLength_takeWhile_add_trimLeft (text : List Char) :
    byteLength (text.takeWhile isBlank) + byteLength (trimLeft text) = byteLength text := by
  rw [trimLeft, ← byteLength_append, List.takeWhile_append_dropWhile]

/-- Skipping leaves nothing exactly when everything is skipped. -/
theorem dropWhile_eq_nil_iff_all (p : Char → Bool) (text : List Char) :
    text.dropWhile p = [] ↔ text.all p = true := by
  induction text with
  | nil => simp
  | cons c rest ih => cases h : p c <;> simp [h, ih]

/-- Nothing is left exactly when everything is blank. -/
theorem trim_eq_nil_iff (text : List Char) : trim text = [] ↔ text.all isBlank = true := by
  rw [trim, trimRight, trimLeft, List.reverse_eq_nil_iff, dropWhile_eq_nil_iff_all,
    List.all_reverse]
  constructor
  · intro h
    rw [← List.takeWhile_append_dropWhile (p := isBlank) (l := text), List.all_append, h,
      List.all_takeWhile]
    rfl
  · intro h
    rw [(dropWhile_eq_nil_iff_all isBlank text).mpr h]
    rfl

end CardinalitySearch.Text
