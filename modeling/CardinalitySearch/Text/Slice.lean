/-
CardinalitySearch.Text.Slice — cutting a text at byte offsets.

An offset counts the bytes of the UTF-8 form.  A text can be cut where a
character starts and at its end, and nowhere else: at an offset within a
character or beyond the end the functions here have no result
(`splitAt?_eq_some_iff`).
-/
import CardinalitySearch.Text.Blank
import CardinalitySearch.Text.Pieces

namespace CardinalitySearch.Text

/-- The text before a byte offset and the text from there on. -/
def splitAt? : Nat → List Char → Option (List Char × List Char)
  | 0, text => some ([], text)
  | _ + 1, [] => none
  | offset + 1, c :: rest =>
    if c.utf8Size ≤ offset + 1 then
      (splitAt? (offset + 1 - c.utf8Size) rest).map fun (front, back) => (c :: front, back)
    else none

/-- The text before a byte offset. -/
def upTo? (offset : Nat) (text : List Char) : Option (List Char) :=
  (splitAt? offset text).map (·.1)

/-- The text from a byte offset on. -/
def from? (offset : Nat) (text : List Char) : Option (List Char) :=
  (splitAt? offset text).map (·.2)

/-- The byte offset of the first `mark`. -/
def offset? (mark : Char) (text : List Char) : Option Nat :=
  match cut mark text with
  | (_, []) => none
  | (before, _ :: _) => some (byteLength before)

/-- How far one offset lies behind another, if it does. -/
def difference? (offset earlier : Nat) : Option Nat :=
  if earlier ≤ offset then some (offset - earlier) else none

/-- A text can be cut at an offset if so many bytes are those of its first characters. -/
theorem splitAt?_append (front back : List Char) :
    splitAt? (byteLength front) (front ++ back) = some (front, back) := by
  induction front with
  | nil => cases back <;> rfl
  | cons c rest ih =>
    obtain ⟨size, width⟩ := Nat.exists_eq_add_one.mpr c.utf8Size_pos
    have total : byteLength (c :: rest) = (size + byteLength rest) + 1 := by
      rw [byteLength_cons, width]
      omega
    have remaining : size + byteLength rest + 1 - c.utf8Size = byteLength rest := by omega
    rw [total, List.cons_append, splitAt?, if_pos (by omega), remaining, ih]
    rfl

/-- A text can be cut nowhere else. -/
theorem splitAt?_eq_some_iff (text : List Char) :
    ∀ (offset : Nat) (front back : List Char),
      splitAt? offset text = some (front, back) ↔
        text = front ++ back ∧ byteLength front = offset := by
  intro offset front back
  constructor
  · induction text generalizing offset front with
    | nil =>
      cases offset with
      | zero =>
        rintro ⟨⟩
        exact ⟨rfl, rfl⟩
      | succ offset => simp [splitAt?]
    | cons c rest ih =>
      cases offset with
      | zero =>
        rintro ⟨⟩
        exact ⟨rfl, rfl⟩
      | succ offset =>
        rw [splitAt?]
        split
        · next fits =>
          simp only [Option.map_eq_some_iff, Prod.mk.injEq]
          rintro ⟨⟨others, _⟩, split, rfl, rfl⟩
          obtain ⟨rfl, size⟩ := ih _ _ split
          refine ⟨rfl, ?_⟩
          rw [byteLength_cons, size]
          omega
        · simp
  · rintro ⟨rfl, rfl⟩
    exact splitAt?_append front back

/-- The bytes of a string are those of its characters. -/
theorem byteLength_eq_utf8ByteSize (text : List Char) :
    byteLength text = (String.ofList text).utf8ByteSize := by
  induction text with
  | nil => rfl
  | cons c rest ih =>
    have whole : String.ofList (c :: rest) = String.singleton c ++ String.ofList rest := by
      rw [String.singleton_eq_ofList, ← String.ofList_append, List.singleton_append]
    rw [byteLength_cons, ih, whole, String.utf8ByteSize_append, String.utf8ByteSize_singleton]

/-- The offsets at which a text can be cut are the valid positions of the string. -/
theorem isSome_splitAt?_iff (s : String) (offset : Nat) :
    (splitAt? offset s.toList).isSome = true ↔ String.Pos.Raw.IsValid s ⟨offset⟩ := by
  rw [Option.isSome_iff_exists, String.Pos.Raw.isValid_iff_exists_append]
  constructor
  · rintro ⟨⟨front, back⟩, split⟩
    obtain ⟨whole, rfl⟩ := (splitAt?_eq_some_iff _ _ _ _).mp split
    refine ⟨String.ofList front, String.ofList back, ?_, ?_⟩
    · rw [← String.ofList_append, ← whole, String.ofList_toList]
    · rw [byteLength_eq_utf8ByteSize]
      rfl
  · rintro ⟨front, back, rfl, here⟩
    refine ⟨(front.toList, back.toList), (splitAt?_eq_some_iff _ _ _ _).mpr ⟨?_, ?_⟩⟩
    · rw [String.toList_append]
    · rw [byteLength_eq_utf8ByteSize, String.ofList_toList]
      exact (congrArg String.Pos.Raw.byteIdx here).symm

theorem upTo?_of_eq {text front back : List Char} (whole : text = front ++ back) :
    upTo? (byteLength front) text = some front := by
  rw [whole, upTo?, splitAt?_append, Option.map_some]

theorem from?_of_eq {text front back : List Char} (whole : text = front ++ back) :
    from? (byteLength front) text = some back := by
  rw [whole, from?, splitAt?_append, Option.map_some]

/-- The first mark stands behind the part that is cut off before it. -/
theorem offset?_eq (mark : Char) (text : List Char) :
    offset? mark text
      = if (cut mark text).2 = [] then none else some (byteLength (cut mark text).1) := by
  unfold offset?
  split <;> next found => simp [found]

@[simp] theorem difference?_add (a b : Nat) : difference? (a + b) b = some a := by
  rw [difference?, if_pos (Nat.le_add_left b a), Nat.add_sub_cancel]

end CardinalitySearch.Text
