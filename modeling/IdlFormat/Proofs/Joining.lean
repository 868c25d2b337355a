import IdlFormat.Text.Basic

/-!
# Cutting texts and joining them

Cutting a text at a character and joining the pieces by it undo each other, as long as the pieces do
not hold the character. Pieces that were cut off never do.
-/

namespace IdlFormat

namespace Text

variable {separator : Char}

theorem splitOn_ne_nil (separator : Char) (text : Text) : splitOn separator text ≠ [] := by
  fun_cases splitOn separator text <;> simp

/-- There is a first piece, even of an empty text. -/
theorem exists_splitOn_eq (separator : Char) (text : Text) :
    ∃ piece pieces, splitOn separator text = piece :: pieces :=
  List.exists_cons_of_ne_nil (splitOn_ne_nil separator text)

theorem splitOn_cons_self (separator : Char) (text : Text) :
    splitOn separator (separator :: text) = [] :: splitOn separator text := by
  simp [splitOn]

theorem splitOn_cons {c : Char} (other : c ≠ separator) {text piece : Text} {pieces : List Text}
    (cut : splitOn separator text = piece :: pieces) :
    splitOn separator (c :: text) = (c :: piece) :: pieces := by
  simp [splitOn, other, cut]

theorem splitOn_append (separator : Char) (left right : Text) :
    splitOn separator (left ++ separator :: right) =
      splitOn separator left ++ splitOn separator right := by
  induction left with
  | nil => exact splitOn_cons_self separator right
  | cons c left ih =>
      rw [List.cons_append]
      by_cases cut : c = separator
      · rw [cut, splitOn_cons_self, splitOn_cons_self, ih, List.cons_append]
      · rcases exists_splitOn_eq separator left with ⟨piece, pieces, inner⟩
        rw [inner, List.cons_append] at ih
        rw [splitOn_cons cut ih, splitOn_cons cut inner, List.cons_append]

theorem splitOn_of_not_mem {text : Text} (absent : separator ∉ text) :
    splitOn separator text = [text] := by
  induction text with
  | nil => rfl
  | cons c text ih =>
      rw [List.mem_cons, not_or] at absent
      exact splitOn_cons (Ne.symm absent.1) (ih absent.2)

theorem join_cons (separator text : Text) (texts : List Text) :
    join separator (text :: texts) = text ++ texts.flatMap (separator ++ ·) := by
  induction texts generalizing text with
  | nil => simp [join]
  | cons next texts ih => simp [join, ih]

/-- The first text is joined to those behind it, if there are any. -/
theorem join_cons_of_ne_nil (separator : Char) (text : Text) {texts : List Text}
    (filled : texts ≠ []) :
    join [separator] (text :: texts) = text ++ separator :: join [separator] texts := by
  rcases List.exists_cons_of_ne_nil filled with ⟨next, others, rfl⟩
  rw [join_cons, join_cons]
  rfl

theorem splitOn_join {text : Text} {texts : List Text}
    (clean : ∀ piece ∈ text :: texts, separator ∉ piece) :
    splitOn separator (join [separator] (text :: texts)) = text :: texts := by
  induction texts generalizing text with
  | nil => exact splitOn_of_not_mem (clean text List.mem_cons_self)
  | cons next texts ih =>
      rw [List.forall_mem_cons] at clean
      rw [join_cons_of_ne_nil separator text (List.cons_ne_nil next texts), splitOn_append,
        splitOn_of_not_mem clean.1, ih clean.2, List.singleton_append]

theorem join_splitOn (separator : Char) (text : Text) :
    join [separator] (splitOn separator text) = text := by
  induction text with
  | nil => rfl
  | cons c text ih =>
      rcases exists_splitOn_eq separator text with ⟨piece, pieces, inner⟩
      rw [inner, join_cons] at ih
      by_cases cut : c = separator
      · rw [cut, splitOn_cons_self, inner, join_cons, List.flatMap_cons, List.append_assoc, ih]
        rfl
      · rw [splitOn_cons cut inner, join_cons, List.cons_append, ih]

theorem not_mem_of_mem_splitOn {text piece : Text} (member : piece ∈ splitOn separator text) :
    separator ∉ piece := by
  induction text generalizing piece with
  | nil =>
      obtain rfl : piece = [] := by simpa [splitOn] using member
      exact List.not_mem_nil
  | cons c text ih =>
      by_cases cut : c = separator
      · rw [cut, splitOn_cons_self] at member
        rcases List.mem_cons.1 member with rfl | later
        · exact List.not_mem_nil
        · exact ih later
      · rcases exists_splitOn_eq separator text with ⟨first, pieces, inner⟩
        rw [inner] at ih
        rw [splitOn_cons cut inner] at member
        rcases List.mem_cons.1 member with rfl | later
        · simpa [Ne.symm cut] using ih List.mem_cons_self
        · exact ih (List.mem_cons_of_mem first later)

/-- The first piece is empty at a separator and at the end. -/
theorem splitOn_head_eq_nil_iff {text piece : Text} {pieces : List Text}
    (cut : splitOn separator text = piece :: pieces) :
    piece = [] ↔ text = [] ∨ text.head? = some separator := by
  cases text with
  | nil => simp_all [splitOn]
  | cons c rest =>
      by_cases isSeparator : c = separator
      · subst isSeparator
        simp_all [splitOn]
      · rcases exists_splitOn_eq separator rest with ⟨first, others, inner⟩
        rw [splitOn_cons isSeparator inner, List.cons.injEq] at cut
        simp [← cut.1, isSeparator]

theorem joinLines_cons_cons (line next : Text) (lines : List Text) :
    joinLines (line :: next :: lines) = line ++ '\n' :: joinLines (next :: lines) :=
  join_cons_of_ne_nil '\n' line (List.cons_ne_nil next lines)

theorem joinLines_splitOn (text : Text) : joinLines (splitOn '\n' text) = text :=
  join_splitOn '\n' text

theorem mem_joinLines_iff {c : Char} (inLine : c ≠ '\n') (lines : List Text) :
    c ∈ joinLines lines ↔ ∃ line ∈ lines, c ∈ line := by
  induction lines with
  | nil => simp [joinLines, join]
  | cons line lines ih =>
      cases lines with
      | nil => simp [joinLines, join]
      | cons next lines =>
          rw [joinLines_cons_cons, List.mem_append, List.mem_cons, or_iff_right inLine, ih]
          simp

end Text

end IdlFormat
