/-
CardinalitySearch.Text.Pieces — cutting a text at marks and line ends.

A text with n marks has n + 1 pieces between them, any of which may be empty.
Joining the pieces with the mark gives the text back, and no piece holds the
mark; the two together determine the pieces.
-/

namespace CardinalitySearch.Text

/-- Splits off the part before the first `mark`; the rest begins with the mark. -/
def cut (mark : Char) (text : List Char) : List Char × List Char :=
  (text.takeWhile (· ≠ mark), text.dropWhile (· ≠ mark))

/-- The pieces that are complete, latest first, the characters of the piece
being read, latest first, and the text still to be split. -/
def piecesFrom (mark : Char) (done : List (List Char)) (current : List Char) :
    List Char → List (List Char)
  | [] => (current.reverse :: done).reverse
  | c :: rest =>
    if c = mark then piecesFrom mark (current.reverse :: done) [] rest
    else piecesFrom mark done (c :: current) rest

/-- The pieces between the marks, one more than there are marks. -/
def pieces (mark : Char) (text : List Char) : List (List Char) :=
  piecesFrom mark [] [] text

/-- A line without the carriage return at its end, if there is one. -/
def dropReturn (line : List Char) : List Char :=
  if line.getLast? = some '\r' then line.dropLast else line

/-- The lines of a text.  A line ends at a line feed, a carriage return before
which belongs to the line end; what follows the last line feed is a line only
if it is not empty. -/
def lines (text : List Char) : List (List Char) :=
  let all := pieces '\n' text
  let last := all.getLastD []
  all.dropLast.map dropReturn ++ if last.isEmpty then [] else [last]

/-- What has been read of a piece is put in front of the first one to come, and
the complete pieces come before that. -/
theorem piecesFrom_eq (mark : Char) (text : List Char) :
    ∀ (done : List (List Char)) (current : List Char),
      ∃ piece more, pieces mark text = piece :: more ∧
        piecesFrom mark done current text = done.reverse ++ (current.reverse ++ piece) :: more := by
  induction text with
  | nil => intro done current; exact ⟨[], [], rfl, by simp [piecesFrom]⟩
  | cons c rest ih =>
    intro done current
    by_cases h : c = mark
    · obtain ⟨piece, more, whole, split⟩ := ih (current.reverse :: done) []
      obtain ⟨piece', more', whole', split'⟩ := ih [[]] []
      obtain ⟨rfl, rfl⟩ := List.cons.inj (whole.symm.trans whole')
      refine ⟨[], piece :: more, ?_, ?_⟩
      · simpa [pieces, piecesFrom, h] using split'
      · simpa [piecesFrom, h] using split
    · obtain ⟨piece, more, whole, split⟩ := ih done (c :: current)
      obtain ⟨piece', more', whole', split'⟩ := ih [] [c]
      obtain ⟨rfl, rfl⟩ := List.cons.inj (whole.symm.trans whole')
      refine ⟨c :: piece, more, ?_, ?_⟩
      · simpa [pieces, piecesFrom, h] using split'
      · simpa [piecesFrom, h] using split

@[simp] theorem pieces_nil (mark : Char) : pieces mark [] = [[]] := rfl

/-- A mark at the start begins a new piece after an empty one. -/
theorem pieces_cons_self (mark : Char) (rest : List Char) :
    pieces mark (mark :: rest) = [] :: pieces mark rest := by
  obtain ⟨piece, more, whole, split⟩ := piecesFrom_eq mark rest [[]] []
  rw [whole]
  simpa [pieces, piecesFrom] using split

/-- Any other character at the start belongs to the first piece. -/
theorem pieces_cons_of_ne {mark c : Char} (h : c ≠ mark) {rest piece : List Char}
    {more : List (List Char)} (hrest : pieces mark rest = piece :: more) :
    pieces mark (c :: rest) = (c :: piece) :: more := by
  obtain ⟨piece', more', whole, split⟩ := piecesFrom_eq mark rest [] [c]
  obtain ⟨rfl, rfl⟩ := List.cons.inj (hrest.symm.trans whole)
  simpa [pieces, piecesFrom, h] using split

/-- There is always a first piece. -/
theorem exists_pieces_eq_cons (mark : Char) (text : List Char) :
    ∃ piece more, pieces mark text = piece :: more := by
  obtain ⟨piece, more, h, -⟩ := piecesFrom_eq mark text [] []
  exact ⟨piece, more, h⟩

/-- No piece holds the mark. -/
theorem not_mem_of_mem_pieces (mark : Char) (text : List Char) :
    ∀ piece ∈ pieces mark text, mark ∉ piece := by
  induction text with
  | nil => simp
  | cons c rest ih =>
    obtain ⟨piece, more, h⟩ := exists_pieces_eq_cons mark rest
    by_cases hc : c = mark
    · subst hc
      rw [pieces_cons_self]
      simpa using ih
    · rw [pieces_cons_of_ne hc h]
      rw [h] at ih
      simp only [List.forall_mem_cons] at ih ⊢
      exact ⟨by simp [ih.1, Ne.symm hc], ih.2⟩

/-- Joining the pieces with the mark gives the text back. -/
theorem intercalate_pieces (mark : Char) (text : List Char) :
    [mark].intercalate (pieces mark text) = text := by
  induction text with
  | nil => rfl
  | cons c rest ih =>
    obtain ⟨piece, more, h⟩ := exists_pieces_eq_cons mark rest
    by_cases hc : c = mark
    · subst hc
      rw [pieces_cons_self, h]
      rw [h] at ih
      simpa [List.intercalate, List.intersperse] using ih
    · rw [pieces_cons_of_ne hc h]
      rw [h] at ih
      cases more <;> simpa [List.intercalate, List.intersperse] using ih

end CardinalitySearch.Text
