/-
CardinalitySearch.Proofs.Text.Cutting — what trimming and splitting leave.

Each way of cutting a text is determined by what its result looks like:

* a run (`takeWhile_append`, `dropWhile_append`) by the character after it;
* a trimmed text (`trim_eq_iff`) by the blanks that were around it and by
  having none at its own ends;
* the pieces between marks (`pieces_append_cons`) by holding no mark;
* the lines of a text (`lines_flatMap`) by holding no line feed and not ending
  in a carriage return.

The grammar of expressions is stated by concatenation, so these are the laws
that lead from it to the functions and back.
-/
import CardinalitySearch.Text.Blank
import CardinalitySearch.Text.Pieces

namespace CardinalitySearch.Text

/-! ## 1. Runs -/

section Runs

variable {p : Char → Bool} {s t : List Char}

theorem takeWhile_append (all : ∀ c ∈ s, p c = true) (stop : ∀ c ∈ t.head?, p c = false) :
    (s ++ t).takeWhile p = s := by
  rw [List.takeWhile_append_of_pos all]
  cases t with
  | nil => simp
  | cons c rest => simp [stop c rfl]

theorem dropWhile_append (all : ∀ c ∈ s, p c = true) (stop : ∀ c ∈ t.head?, p c = false) :
    (s ++ t).dropWhile p = t := by
  rw [List.dropWhile_append_of_pos all]
  cases t with
  | nil => rfl
  | cons c rest => simp [stop c rfl]

theorem head?_dropWhile (p : Char → Bool) (s : List Char) :
    ∀ c ∈ (s.dropWhile p).head?, p c = false := by
  intro c hc
  have stop := List.head?_dropWhile_not p s
  rw [hc] at stop
  exact stop

end Runs

/-! ## 2. Trimming -/

/-- Blanks only. -/
def Blanks (s : List Char) : Prop :=
  ∀ c ∈ s, isBlank c = true

/-- Not a blank at either end. -/
structure Trimmed (s : List Char) : Prop where
  head : ∀ c ∈ s.head?, isBlank c = false
  last : ∀ c ∈ s.getLast?, isBlank c = false

theorem blanks_nil : Blanks [] := by
  simp [Blanks]

theorem all_isBlank_iff (s : List Char) : s.all isBlank = true ↔ Blanks s := by
  rw [List.all_eq_true]
  rfl

theorem blanks_takeWhile (s : List Char) : Blanks (s.takeWhile isBlank) :=
  List.all_eq_true.mp List.all_takeWhile

/-- A text without blanks is trimmed. -/
theorem trimmed_of_forall {s : List Char} (h : ∀ c ∈ s, isBlank c = false) : Trimmed s where
  head c hc := h c (List.mem_of_head? hc)
  last c hc := h c (List.mem_of_getLast? hc)

theorem trimLeft_append {u s : List Char} (hu : Blanks u) (hs : ∀ c ∈ s.head?, isBlank c = false) :
    trimLeft (u ++ s) = s :=
  dropWhile_append hu hs

theorem trimRight_append {s v : List Char} (hs : ∀ c ∈ s.getLast?, isBlank c = false)
    (hv : Blanks v) : trimRight (s ++ v) = s := by
  have stop : ∀ c ∈ s.reverse.head?, isBlank c = false := by
    rw [List.head?_reverse]
    exact hs
  have blanks : ∀ c ∈ v.reverse, isBlank c = true := fun c hc => hv c (List.mem_reverse.mp hc)
  rw [trimRight, List.reverse_append, dropWhile_append blanks stop, List.reverse_reverse]

/-- The blanks around a text that has none at its ends are what trimming removes. -/
theorem trim_append {u s v : List Char} (hu : Blanks u) (hs : Trimmed s) (hv : Blanks v) :
    trim (u ++ s ++ v) = s := by
  cases s with
  | nil =>
    rw [trim_eq_nil_iff, all_isBlank_iff]
    intro c hc
    rw [List.append_nil, List.mem_append] at hc
    rcases hc with hc | hc
    · exact hu c hc
    · exact hv c hc
  | cons c rest =>
    have front : ∀ d ∈ ((c :: rest) ++ v).head?, isBlank d = false := fun d hd => hs.head d hd
    rw [trim, List.append_assoc, trimLeft_append hu front, trimRight_append hs.last hv]

theorem exists_eq_append_trimRight (s : List Char) :
    ∃ v, Blanks v ∧ s = trimRight s ++ v ∧ ∀ c ∈ (trimRight s).getLast?, isBlank c = false := by
  refine ⟨(s.reverse.takeWhile isBlank).reverse, ?_, ?_, ?_⟩
  · intro c hc
    exact blanks_takeWhile _ c (List.mem_reverse.mp hc)
  · rw [trimRight, ← List.reverse_append, List.takeWhile_append_dropWhile, List.reverse_reverse]
  · intro c hc
    rw [trimRight, List.getLast?_reverse] at hc
    exact head?_dropWhile _ _ c hc

/-- Trimming takes blanks off both ends until there are none. -/
theorem exists_eq_append_trim (s : List Char) :
    ∃ u v, Blanks u ∧ Blanks v ∧ s = u ++ trim s ++ v ∧ Trimmed (trim s) := by
  obtain ⟨v, hv, split, last⟩ := exists_eq_append_trimRight (trimLeft s)
  have whole : s = s.takeWhile isBlank ++ trim s ++ v := by
    rw [List.append_assoc, trim, ← split, trimLeft, List.takeWhile_append_dropWhile]
  refine ⟨s.takeWhile isBlank, v, blanks_takeWhile s, hv, whole, ?_, last⟩
  intro c hc
  -- the first character that is left is the first one after the blanks at the start
  have first : c ∈ (trimLeft s).head? := by
    rw [split]
    obtain ⟨rest, cons⟩ := List.head?_eq_some_iff.mp hc
    rw [trim] at cons
    rw [cons]
    rfl
  exact head?_dropWhile _ _ c first

theorem trim_eq_iff (s t : List Char) :
    trim s = t ↔ Trimmed t ∧ ∃ u v, Blanks u ∧ Blanks v ∧ s = u ++ t ++ v := by
  constructor
  · rintro rfl
    obtain ⟨u, v, hu, hv, split, trimmed⟩ := exists_eq_append_trim s
    exact ⟨trimmed, u, v, hu, hv, split⟩
  · rintro ⟨trimmed, u, v, hu, hv, rfl⟩
    exact trim_append hu trimmed hv

theorem trim_eq_self {s : List Char} (h : Trimmed s) : trim s = s :=
  (trim_eq_iff s s).mpr ⟨h, [], [], blanks_nil, blanks_nil, by simp⟩

/-! ## 3. Marks -/

section Marks

variable {mark : Char} {s t : List Char}

theorem cut_append_cons (h : mark ∉ s) (t : List Char) :
    cut mark (s ++ mark :: t) = (s, mark :: t) := by
  have all : ∀ c ∈ s, decide (c ≠ mark) = true := by
    intro c hc
    rw [decide_eq_true_eq]
    rintro rfl
    exact h hc
  have stop : ∀ c ∈ (mark :: t).head?, decide (c ≠ mark) = false := by simp
  unfold cut
  rw [takeWhile_append all stop, dropWhile_append all stop]

/-- A cut leaves nothing exactly when there is no mark. -/
theorem snd_cut_eq_nil_iff (mark : Char) (s : List Char) : (cut mark s).2 = [] ↔ mark ∉ s := by
  rw [cut, dropWhile_eq_nil_iff_all, List.all_eq_true]
  simp only [decide_eq_true_eq]
  constructor
  · exact fun other inside => other mark inside rfl
  · rintro absent c inside rfl
    exact absent inside

/-- A cut that leaves something is at the first mark. -/
theorem eq_of_cut_eq {u v : List Char} {c : Char} (h : cut mark s = (u, c :: v)) :
    s = u ++ mark :: v ∧ mark ∉ u := by
  obtain ⟨front, back⟩ := Prod.mk.inj h
  have whole : s = u ++ c :: v := by
    rw [← front, ← back, List.takeWhile_append_dropWhile]
  have same : c = mark := by
    have stop := head?_dropWhile (fun c => decide (c ≠ mark)) s c
    rw [back] at stop
    simpa using stop rfl
  subst same
  refine ⟨whole, fun inside => ?_⟩
  rw [← front] at inside
  have other := List.all_eq_true.mp List.all_takeWhile c inside
  simp at other

theorem pieces_of_not_mem (h : mark ∉ s) : pieces mark s = [s] := by
  induction s with
  | nil => rfl
  | cons c rest ih =>
    rw [List.mem_cons, not_or] at h
    exact pieces_cons_of_ne (Ne.symm h.1) (ih h.2)

theorem pieces_append_cons (h : mark ∉ s) (t : List Char) :
    pieces mark (s ++ mark :: t) = s :: pieces mark t := by
  induction s with
  | nil => exact pieces_cons_self mark t
  | cons c rest ih =>
    rw [List.mem_cons, not_or] at h
    exact pieces_cons_of_ne (Ne.symm h.1) (ih h.2)

/-- Every text has no mark, or is a part without a mark, a mark and another text. -/
@[elab_as_elim]
theorem marks_induction (mark : Char) {motive : List Char → Prop}
    (last : ∀ s, mark ∉ s → motive s)
    (more : ∀ s t, mark ∉ s → motive t → motive (s ++ mark :: t)) : ∀ s, motive s := by
  intro s
  by_cases inside : mark ∈ s
  · obtain ⟨u, t, split, absent⟩ := List.eq_append_cons_of_mem inside
    rw [split]
    exact more u t absent (marks_induction mark last more t)
  · exact last s inside
termination_by s => s.length
decreasing_by
  rw [split, List.length_append, List.length_cons]
  omega

end Marks

/-! ## 4. Lines -/

/-- Nothing, or a text that ends in a line feed: what follows starts a line. -/
def EndsLine (text : List Char) : Prop :=
  ∀ c ∈ text.getLast?, c = '\n'

instance (text : List Char) : Decidable (EndsLine text) :=
  decidable_of_iff (text.getLast?.all (· = '\n') = true) (by
    unfold EndsLine
    rw [Option.all_eq_true]
    simp)

@[simp] theorem lines_nil : lines [] = [] := rfl

/-- A text in one line is that line. -/
theorem lines_of_not_mem {l : List Char} (h : '\n' ∉ l) (nonempty : l ≠ []) : lines l = [l] := by
  unfold lines
  simp [pieces_of_not_mem h, nonempty]

/-- What ends in a line feed is a line, without a return at its end. -/
theorem lines_append_cons {l : List Char} (h : '\n' ∉ l) (t : List Char) :
    lines (l ++ '\n' :: t) = dropReturn l :: lines t := by
  obtain ⟨piece, more, others⟩ := exists_pieces_eq_cons '\n' t
  unfold lines
  rw [pieces_append_cons h, others]
  simp

/-- Texts each followed by a line feed are the first lines of the whole. -/
theorem lines_flatMap_append {ls : List (List Char)} (h : ∀ l ∈ ls, '\n' ∉ l) (t : List Char) :
    lines (ls.flatMap (· ++ ['\n']) ++ t) = ls.map dropReturn ++ lines t := by
  induction ls with
  | nil => rfl
  | cons l rest ih =>
    rw [List.forall_mem_cons] at h
    have whole : (l :: rest).flatMap (· ++ ['\n']) ++ t
        = l ++ '\n' :: (rest.flatMap (· ++ ['\n']) ++ t) := by simp
    rw [whole, lines_append_cons h.1, ih h.2, List.map_cons, List.cons_append]

/-- Texts each followed by a line feed are the lines of the whole. -/
theorem lines_flatMap {ls : List (List Char)}
    (h : ∀ l ∈ ls, '\n' ∉ l ∧ l.getLast? ≠ some '\r') :
    lines (ls.flatMap (· ++ ['\n'])) = ls := by
  have kept : ls.map dropReturn = ls := by
    refine (List.map_congr_left fun l hl => ?_).trans (List.map_id ls)
    exact if_neg (h l hl).2
  have all := lines_flatMap_append (fun l hl => (h l hl).1) []
  rwa [List.append_nil, lines_nil, List.append_nil, kept] at all

/-- Every text is made of lines that end and of what follows the last of them. -/
theorem exists_eq_flatMap_append (text : List Char) :
    ∃ (ls : List (List Char)) (last : List Char), (∀ l ∈ ls, '\n' ∉ l) ∧ '\n' ∉ last ∧
      text = ls.flatMap (· ++ ['\n']) ++ last := by
  induction text with
  | nil => exact ⟨[], [], by simp, by simp, rfl⟩
  | cons c rest ih =>
    obtain ⟨ls, last, ends, unended, rfl⟩ := ih
    by_cases feed : c = '\n'
    · subst feed
      exact ⟨[] :: ls, last, by simpa using ends, unended, rfl⟩
    · cases ls with
      | nil => exact ⟨[], c :: last, by simp, by simp [Ne.symm feed, unended], rfl⟩
      | cons l more =>
        rw [List.forall_mem_cons] at ends
        refine ⟨(c :: l) :: more, last, ?_, unended, rfl⟩
        rw [List.forall_mem_cons]
        exact ⟨by simp [Ne.symm feed, ends.1], ends.2⟩

/-- What ends in a line feed and what follows it are cut into lines separately. -/
theorem lines_append {u : List Char} (h : EndsLine u) (v : List Char) :
    lines (u ++ v) = lines u ++ lines v := by
  obtain ⟨ls, last, ends, unended, rfl⟩ := exists_eq_flatMap_append u
  have nothing : last = [] := by
    refine List.getLast?_eq_none_iff.mp (Option.eq_none_iff_forall_ne_some.mpr fun c hc => ?_)
    have feed : c = '\n' := h c (by rw [List.getLast?_append, hc]; rfl)
    exact unended (feed ▸ List.mem_of_getLast? hc)
  subst nothing
  have alone := lines_flatMap_append ends []
  rw [lines_nil, List.append_nil] at alone
  rw [List.append_nil] at alone ⊢
  rw [lines_flatMap_append ends, alone]

/-- The return that a line loses at its end is a blank. -/
theorem trim_dropReturn (line : List Char) : trim (dropReturn line) = trim line := by
  unfold dropReturn
  split
  · next last =>
    obtain ⟨init, rfl⟩ := List.getLast?_eq_some_iff.mp last
    obtain ⟨u, v, hu, hv, split, trimmed⟩ := exists_eq_append_trim init
    have blanks : Blanks (v ++ ['\r']) := by
      intro c hc
      rcases List.mem_append.mp hc with old | new
      · exact hv c old
      · rw [List.mem_singleton.mp new]
        decide
    have whole : init ++ ['\r'] = u ++ trim init ++ (v ++ ['\r']) := by
      rw [← List.append_assoc, ← split]
    rw [List.dropLast_concat, whole, trim_append hu trimmed blanks]
  · rfl

/-- A line feed at the end ends the last line, or is an empty line of its own. -/
theorem exists_map_trim_lines_append_feed (text : List Char) :
    ∃ blank : List (List Char), (∀ line ∈ blank, line = []) ∧
      (lines (text ++ ['\n'])).map trim = (lines text ++ blank).map trim := by
  obtain ⟨ls, last, ends, unended, rfl⟩ := exists_eq_flatMap_append text
  have cut := lines_flatMap_append ends (last ++ ['\n'])
  rw [lines_append_cons unended, lines_nil] at cut
  rw [List.append_assoc, cut, lines_flatMap_append ends last]
  by_cases nothing : last = []
  · subst nothing
    exact ⟨[[]], by simp, by simp [dropReturn]⟩
  · rw [lines_of_not_mem unended nothing]
    exact ⟨[], by simp, by simp [trim_dropReturn]⟩

end CardinalitySearch.Text
