import IdlFormat.Edit
import IdlFormat.Proofs.Joining
import Mathlib.Data.List.TakeWhile
import Mathlib.Data.Prod.Lex

/-!
# Positions and offsets

A position counts the line feeds before it and the characters behind the last of them, so the
position behind a text can be read off that text alone. An offset is found the other way round, by
passing one line after the other. Both meet in two facts about the text in front of an offset: its
own position leads to its end (`offsetFrom_lastColumn`), and in front of a position on one of the
lines there are just the lines and columns that the position counts (`behind_offsetFrom`).

From these and from the order of positions it follows that an edit of the whole text replaces it.
-/

namespace IdlFormat

namespace Position

variable {text : Text}

/-- Positions are ordered by their lines, and on a line by their columns. -/
instance : LinearOrder Position :=
  LinearOrder.lift' (fun position => toLex (position.line, position.column)) <| by
    rintro ⟨line, column⟩ ⟨otherLine, otherColumn⟩ same
    simpa using same

theorem le_iff {left right : Position} :
    left ≤ right ↔ left.line < right.line ∨ left.line = right.line ∧ left.column ≤ right.column :=
  Prod.Lex.le_iff

/-- A position lies on one of the lines of a text, at most behind the last character of the line. -/
structure IsIn (position : Position) (text : Text) : Prop where
  /-- No line lies above the first one. -/
  line_nonneg : 0 ≤ position.line
  /-- The last line is the one behind all line feeds. -/
  line_le : position.line ≤ text.count '\n'
  /-- No column lies before the first one. -/
  column_nonneg : 0 ≤ position.column
  /-- The last column is the one behind the line. -/
  column_le :
    position.column ≤ ((Text.splitOn '\n' text).getD position.line.toNat []).length

/-! ## The position behind a text -/

/-- The number of characters on the last line of a text. -/
def lastColumn (text : Text) : Nat :=
  (text.reverse.takeWhile (· != '\n')).length

theorem lastColumn_of_not_mem (unbroken : '\n' ∉ text) : lastColumn text = text.length := by
  rw [lastColumn, List.takeWhile_eq_self_iff.2, List.length_reverse]
  intro c member
  rw [List.mem_reverse] at member
  exact bne_iff_ne.2 (ne_of_mem_of_not_mem member unbroken)

/-- What stands before a line feed does not count. -/
theorem lastColumn_cons_of_mem (broken : '\n' ∈ text) (c : Char) :
    lastColumn (c :: text) = lastColumn text := by
  rw [lastColumn, lastColumn, List.reverse_cons, List.takeWhile_append, if_neg]
  intro whole
  have same := (List.takeWhile_prefix _).eq_of_length whole
  have kept := List.mem_takeWhile_imp (same ▸ List.mem_reverse.2 broken)
  simp at kept

theorem lastColumn_break (text : Text) : lastColumn ('\n' :: text) = lastColumn text := by
  rw [lastColumn, lastColumn, List.reverse_cons, List.takeWhile_append]
  split
  · next whole => simp [whole]
  · rfl

/-! ## Offsets of positions -/

theorem takeWhile_cons_of_inLine {c : Char} (inLine : c ≠ '\n') (text : Text) :
    (c :: text).takeWhile (· != '\n') = c :: text.takeWhile (· != '\n') :=
  List.takeWhile_cons_of_pos (bne_iff_ne.2 inLine)

theorem offsetFrom_zero (column : Int) (text : Text) :
    offsetFrom column 0 text = min column.toNat (text.takeWhile (· != '\n')).length := by
  cases text <;> simp [offsetFrom]

theorem offsetFrom_succ_break (column : Int) (line : Nat) (text : Text) :
    offsetFrom column (line + 1) ('\n' :: text) = offsetFrom column line text + 1 := by
  rw [offsetFrom, if_pos rfl, Nat.add_comm]

theorem offsetFrom_succ_cons (column : Int) (line : Nat) {c : Char} (inLine : c ≠ '\n')
    (text : Text) :
    offsetFrom column (line + 1) (c :: text) = offsetFrom column (line + 1) text + 1 := by
  rw [offsetFrom, if_neg inLine, Nat.add_comm]

theorem offsetFrom_le_length (column : Int) (line : Nat) (text : Text) :
    offsetFrom column line text ≤ text.length := by
  fun_induction offsetFrom column line text with
  | case1 line => exact Nat.le_refl 0
  | case2 text _ => exact (Nat.min_le_right _ _).trans (List.takeWhile_prefix _).length_le
  | case3 line c rest ih1 ih2 =>
      rw [List.length_cons]
      split <;> omega

theorem offsetFrom_mono {left right : Int} (le : left ≤ right) (line : Nat) (text : Text) :
    offsetFrom left line text ≤ offsetFrom right line text := by
  fun_induction offsetFrom left line text with
  | case1 line => exact Nat.zero_le _
  | case2 text filled =>
      have further := Int.toNat_le_toNat le
      rw [offsetFrom_zero]
      omega
  | case3 line c rest ih1 ih2 =>
      rw [offsetFrom]
      split
      · exact Nat.add_le_add_left ih1 1
      · exact Nat.add_le_add_left ih2 1

/-- A column on an earlier line comes first, however far it is. -/
theorem offsetFrom_le_of_lt {first second : Nat} (earlier : first < second) (left right : Int)
    (text : Text) : offsetFrom left first text ≤ offsetFrom right second text := by
  induction text generalizing left first second with
  | nil => simp [offsetFrom]
  | cons c text ih =>
      obtain ⟨second, rfl⟩ := Nat.exists_eq_add_one_of_ne_zero (Nat.ne_zero_of_lt earlier)
      by_cases broken : c = '\n'
      · subst broken
        rw [offsetFrom_succ_break]
        cases first with
        | zero => simp [offsetFrom_zero]
        | succ first =>
            rw [offsetFrom_succ_break]
            exact Nat.add_le_add_right (ih (Nat.lt_of_succ_lt_succ earlier) left) 1
      · rw [offsetFrom_succ_cons right second broken]
        cases first with
        | zero =>
            have rest := ih earlier left
            rw [offsetFrom_zero] at rest ⊢
            rw [takeWhile_cons_of_inLine broken, List.length_cons]
            omega
        | succ first =>
            rw [offsetFrom_succ_cons left first broken]
            exact Nat.add_le_add_right (ih earlier left) 1

theorem toOffset_mono (text : Text) : Monotone (toOffset text) := by
  intro left right le
  rw [toOffset, toOffset]
  split
  · exact Nat.zero_le _
  · next below =>
      rcases le_iff.1 le with line | ⟨line, column⟩
      · rw [if_neg (by omega)]
        exact offsetFrom_le_of_lt (by omega) _ _ text
      · rw [if_neg (by omega), line]
        exact offsetFrom_mono column _ text

theorem toOffset_le_length (text : Text) (position : Position) :
    position.toOffset text ≤ text.length := by
  rw [toOffset]
  split
  · exact Nat.zero_le _
  · exact offsetFrom_le_length _ _ text

/-- The position behind the beginning of a text leads there. -/
theorem offsetFrom_lastColumn (before after : Text) :
    offsetFrom (lastColumn before) (before.count '\n') (before ++ after) = before.length := by
  induction before with
  | nil => simp [offsetFrom_zero, lastColumn]
  | cons c before ih =>
      rw [List.cons_append, List.length_cons]
      by_cases broken : c = '\n'
      · rw [broken, lastColumn_break, List.count_cons_self, offsetFrom_succ_break, ih]
      · rw [List.count_cons_of_ne broken]
        by_cases later : '\n' ∈ before
        · obtain ⟨line, count⟩ := Nat.exists_eq_succ_of_ne_zero (List.count_pos_iff.2 later).ne'
          rw [count] at ih ⊢
          rw [lastColumn_cons_of_mem later, offsetFrom_succ_cons _ _ broken, ih]
        · -- all of the first line is still to come, and it reaches up to the position at least
          have unbroken : '\n' ∉ c :: before := by simp [Ne.symm broken, later]
          have prefixed : ((c :: before) ++ after).takeWhile (· != '\n') =
              c :: before ++ after.takeWhile (· != '\n') :=
            List.takeWhile_append_of_pos fun d member =>
              bne_iff_ne.2 (ne_of_mem_of_not_mem member unbroken)
          rw [List.count_eq_zero.2 later, lastColumn_of_not_mem unbroken, offsetFrom_zero,
            ← List.cons_append, prefixed]
          simp

theorem head_splitOn (text : Text) :
    (Text.splitOn '\n' text).getD 0 [] = text.takeWhile (· != '\n') := by
  induction text with
  | nil => rfl
  | cons c text ih =>
      rcases Text.exists_splitOn_eq '\n' text with ⟨piece, pieces, cut⟩
      by_cases broken : c = '\n'
      · simp [broken, Text.splitOn_cons_self]
      · rw [cut] at ih
        rw [Text.splitOn_cons broken cut, takeWhile_cons_of_inLine broken, ← ih]
        rfl

/-- A column on the first line comes before any line feed. -/
theorem break_not_mem_take {column : Nat}
    (within : column ≤ (text.takeWhile (· != '\n')).length) : '\n' ∉ text.take column := by
  intro member
  have inLine := List.prefix_of_prefix_length_le (List.take_prefix column text)
    (List.takeWhile_prefix _) ((List.length_take_le _ _).trans within)
  have kept := List.mem_takeWhile_imp (inLine.subset member)
  simp at kept

/-- The text before a column on a line has as many line feeds and ends in that column. -/
theorem behind_offsetFrom {line column : Nat} (below : line ≤ text.count '\n')
    (within : column ≤ ((Text.splitOn '\n' text).getD line []).length) :
    (text.take (offsetFrom column line text)).count '\n' = line ∧
      lastColumn (text.take (offsetFrom column line text)) = column := by
  induction text generalizing line with
  | nil =>
      obtain rfl : line = 0 := by simpa using below
      obtain rfl : column = 0 := by simpa [Text.splitOn] using within
      exact ⟨rfl, rfl⟩
  | cons c text ih =>
      cases line with
      | zero =>
          rw [head_splitOn] at within
          have unbroken := break_not_mem_take within
          have short := within.trans (List.takeWhile_prefix _).length_le
          rw [offsetFrom_zero, Int.toNat_natCast, min_eq_left within, List.count_eq_zero.2 unbroken,
            lastColumn_of_not_mem unbroken, List.length_take, min_eq_left short]
          exact ⟨rfl, rfl⟩
      | succ line =>
          rcases Text.exists_splitOn_eq '\n' text with ⟨piece, pieces, cut⟩
          by_cases broken : c = '\n'
          · subst broken
            rw [List.count_cons_self] at below
            rw [Text.splitOn_cons_self] at within
            have rest := ih (Nat.le_of_succ_le_succ below) within
            rw [offsetFrom_succ_break, List.take_succ_cons, List.count_cons_self, rest.1,
              lastColumn_break]
            exact ⟨rfl, rest.2⟩
          · rw [List.count_cons_of_ne broken] at below
            rw [Text.splitOn_cons broken cut] at within
            have rest := ih below (by rwa [cut])
            rw [offsetFrom_succ_cons _ _ broken, List.take_succ_cons,
              List.count_cons_of_ne broken, rest.1, lastColumn_cons_of_mem]
            · exact ⟨rfl, rest.2⟩
            · exact List.count_pos_iff.1 (by omega)

/-! ## There and back -/

theorem toOffset_ofOffset (text : Text) (offset : Int) :
    ((ofOffset text offset).toOffset text : Int) = max 0 (min offset text.length) := by
  have reached := offsetFrom_lastColumn (text.take offset.toNat) (text.drop offset.toNat)
  rw [List.take_append_drop] at reached
  have back : (ofOffset text offset).toOffset text = (text.take offset.toNat).length := by
    rw [toOffset, ofOffset, if_neg (Int.not_lt.2 (Int.natCast_nonneg _)), Int.toNat_natCast]
    exact reached
  rw [back, List.length_take]
  omega

theorem ofOffset_toOffset {position : Position} (inside : position.IsIn text) :
    ofOffset text (position.toOffset text) = position := by
  rcases position with ⟨line, column⟩
  rcases inside with ⟨line_nonneg, line_le, column_nonneg, column_le⟩
  obtain ⟨line, rfl⟩ := Int.eq_ofNat_of_zero_le line_nonneg
  obtain ⟨column, rfl⟩ := Int.eq_ofNat_of_zero_le column_nonneg
  have offset : toOffset text ⟨line, column⟩ = offsetFrom column line text := by
    rw [toOffset, if_neg (Int.not_lt.2 line_nonneg), Int.toNat_natCast]
  have found := behind_offsetFrom (Int.ofNat_le.1 line_le) (Int.ofNat_le.1 column_le)
  rw [offset, ofOffset, Int.toNat_natCast, mk.injEq]
  exact ⟨congrArg Nat.cast found.1, congrArg Nat.cast found.2⟩

/-- Positions are ordered like the offsets in a text. -/
theorem ofOffset_lt_ofOffset {first second : Int} (first_nonneg : 0 ≤ first)
    (less : first < second) (second_le : second ≤ text.length) :
    ofOffset text first < ofOffset text second := by
  apply (toOffset_mono text).reflect_lt
  have back (offset : Int) (nonneg : 0 ≤ offset) (le : offset ≤ text.length) :
      ((ofOffset text offset).toOffset text : Int) = offset := by
    rw [toOffset_ofOffset, min_eq_left le, max_eq_right nonneg]
  rw [← Int.ofNat_lt, back first first_nonneg (by omega), back second (by omega) second_le]
  exact less

end Position

namespace Edit

/-- The text in which an edit has replaced the part in its range. -/
def apply (text : Text) (edit : Edit) : Text :=
  text.take (edit.range.start.toOffset text) ++ edit.replacement ++
    text.drop (edit.range.stop.toOffset text)

theorem apply_full (text replacement : Text) :
    apply text ⟨Range.full text, replacement⟩ = replacement := by
  have start : (Position.ofOffset text 0).toOffset text = 0 := by
    have found := Position.toOffset_ofOffset text 0
    omega
  have stop : (Position.ofOffset text text.length).toOffset text = text.length := by
    have found := Position.toOffset_ofOffset text text.length
    omega
  simp [apply, Range.full, start, stop]

/-- There is one edit, of the whole document, and it makes the document the formatted one. -/
theorem map_apply_ofDocument (style : Style) (text : Text) :
    (ofDocument style text).map (List.map fun edit => (edit.range, edit.apply text)) =
      (Document.format style text).map fun formatted => [(Range.full text, formatted)] := by
  rw [ofDocument]
  cases Document.format style text with
  | error excess => rfl
  | ok formatted =>
      show Except.ok [(Range.full text, apply text ⟨Range.full text, formatted⟩)] =
        Except.ok [(Range.full text, formatted)]
      rw [apply_full]

end Edit

namespace Position

/-- Offsets and positions of a text correspond to each other, in their orders. An offset outside the
text is brought to its nearer end, and every position has an offset. So the edit of the range of the
whole text gives the formatted document, also if only a part of it was asked for. -/
theorem offsets_correspond (text : Text) :
    (∀ offset : Int,
      ((ofOffset text offset).toOffset text : Int) = max 0 (min offset text.length)) ∧
    (∀ position : Position, position.IsIn text →
      ofOffset text (position.toOffset text) = position) ∧
    (∀ position : Position, position.toOffset text ≤ text.length) ∧
    Monotone (toOffset text) ∧
    (∀ first second : Int, 0 ≤ first → first < second → second ≤ text.length →
      ofOffset text first < ofOffset text second) ∧
    ∀ (style : Style) (requested : Range),
      (Edit.ofDocument style text).map (List.map fun edit => (edit.range, edit.apply text)) =
        (Document.format style text).map (fun formatted => [(Range.full text, formatted)]) ∧
      (Edit.ofRange style text requested).map (List.map fun edit => (edit.range, edit.apply text)) =
        (Document.format style text).map fun formatted => [(Range.full text, formatted)] :=
  ⟨toOffset_ofOffset text, fun _ => ofOffset_toOffset, toOffset_le_length text, toOffset_mono text,
    fun _ _ => ofOffset_lt_ofOffset,
    fun style _ => ⟨Edit.map_apply_ofDocument style text, Edit.map_apply_ofDocument style text⟩⟩

/-- The end of a text without a final line feed, behind an empty line; the offsets on both sides of
a line feed; and a column far to the right on the line before. -/
theorem offsets_correspond_emptyLine :
    IsIn ⟨2, 3⟩ "x;\n\ny =".toList ∧
      ofOffset "x;\n\ny =".toList (toOffset "x;\n\ny =".toList ⟨2, 3⟩) = ⟨2, 3⟩ ∧
      toOffset "x;\n\ny =".toList ⟨2, 3⟩ = 7 ∧
      ofOffset "x;\n\ny =".toList 2 < ofOffset "x;\n\ny =".toList 3 ∧
      toOffset "x;\n\ny =".toList ⟨0, 99⟩ ≤ toOffset "x;\n\ny =".toList ⟨1, -1⟩ := by
  obtain ⟨-, back, -, mono, strict, -⟩ := offsets_correspond "x;\n\ny =".toList
  have inside : IsIn ⟨2, 3⟩ "x;\n\ny =".toList :=
    ⟨by decide, by decide, by decide, by decide⟩
  have rising := strict 2 3 (by decide) (by decide) (by decide)
  exact ⟨inside, back _ inside, by decide, rising, mono (le_iff.2 (.inl (by decide)))⟩

end Position

end IdlFormat
