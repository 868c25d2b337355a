import IdlFormat.Proofs.Clean

/-!
# Indenting a comment anew

An indented comment has forgotten how it was indented before. Blank lines and lines with a star are
written from their trimmed texts alone, which no indentation changes. The plain lines share a
margin, the indentation of the least of them; writing them anew takes the margin off and puts the new
indentation in its place, so that the margin of the result is the new indentation itself
(`margin_map_formatLine`). Taking that off again gives the lines without their first margin,
whichever indentation has come between.
-/

namespace IdlFormat

namespace BlockComment

open Text (splitOn joinLines)

/-- An indentation made of spaces. -/
def spaces (width : Nat) : Text :=
  List.replicate width ' '

theorem all_isBlank_spaces (width : Nat) : (spaces width).all isBlank := by
  simp [spaces]

variable {lines : List Text} {line : Text} {width : Nat}

theorem isPlain_iff : isPlain line ↔ line.trim ≠ [] ∧ line.trim.head? ≠ some '*' := by
  simp [isPlain]

/-- How a line without a margin of its own is written depends on its trimmed text only. -/
theorem formatLine_of_not_plain (notPlain : isPlain line = false) {other : Text}
    (same : other.trim = line.trim) (indent : Text) (margin otherMargin : Nat) :
    formatLine indent otherMargin other = formatLine indent margin line := by
  simp only [formatLine, same]
  split
  · rfl
  · next filled =>
      split
      · rfl
      · next noStar =>
          rw [List.isEmpty_iff] at filled
          have plain : isPlain line := isPlain_iff.2 ⟨filled, noStar⟩
          simp [notPlain] at plain

/-- A plain line loses the margin and the blanks at its end. -/
theorem formatLine_of_plain (plain : isPlain line) {margin : Nat}
    (small : margin ≤ leadingBlanks line) (indent : Text) :
    formatLine indent margin line =
      indent ++ ((line.takeWhile isBlank).drop margin ++ line.trim) := by
  rcases isPlain_iff.1 plain with ⟨filled, noStar⟩
  rw [← drop_margin small filled]
  simp [formatLine, filled, noStar]

theorem isPlain_formatLine {indent : Text} (blank : indent.all isBlank) (member : line ∈ lines) :
    isPlain (formatLine indent (margin lines) line) = isPlain line := by
  rw [isPlain, trim_formatLine blank member, isPlain]

/-- The blanks in front of a plain line are the new indentation and what exceeds the margin. -/
theorem takeWhile_formatLine (member : line ∈ lines) (plain : isPlain line) :
    (formatLine (spaces width) (margin lines) line).takeWhile isBlank =
      spaces width ++ (line.takeWhile isBlank).drop (margin lines) := by
  rw [formatLine_of_plain plain (margin_le member plain),
    List.takeWhile_append_of_pos (List.all_eq_true.1 (all_isBlank_spaces width)),
    List.takeWhile_append_of_pos (List.all_eq_true.1 (all_isBlank_drop line _)),
    Text.takeWhile_trim, List.append_nil]

/-- A plain line is moved by the new indentation less the margin. -/
theorem leadingBlanks_formatLine (member : line ∈ lines) (plain : isPlain line) :
    leadingBlanks (formatLine (spaces width) (margin lines) line) + margin lines =
      width + leadingBlanks line := by
  have small := margin_le member plain
  rw [leadingBlanks, takeWhile_formatLine member plain, List.length_append, List.length_drop,
    spaces, List.length_replicate]
  rw [leadingBlanks] at small ⊢
  omega

theorem exists_leadingBlanks_eq_margin (member : line ∈ lines) (plain : isPlain line) :
    ∃ least ∈ lines, isPlain least ∧ leadingBlanks least = margin lines := by
  have inside : leadingBlanks line ∈ (lines.filter isPlain).map leadingBlanks :=
    List.mem_map.2 ⟨line, List.mem_filter.2 ⟨member, plain⟩, rfl⟩
  rw [margin]
  cases found : ((lines.filter isPlain).map leadingBlanks).min? with
  | none =>
      rw [List.min?_eq_none_iff] at found
      simp [found] at inside
  | some least =>
      rcases List.mem_map.1 (List.min?_mem found) with ⟨other, isOther, same⟩
      rcases List.mem_filter.1 isOther with ⟨there, plainToo⟩
      exact ⟨other, there, plainToo, same⟩

/-- The margin of lines indented anew is the new indentation. -/
theorem margin_map_formatLine (member : line ∈ lines) (plain : isPlain line) :
    margin (lines.map (formatLine (spaces width) (margin lines))) = width := by
  have blank := all_isBlank_spaces width
  have moved {line : Text} := @leadingBlanks_formatLine lines line width
  apply Nat.le_antisymm
  · rcases exists_leadingBlanks_eq_margin member plain with ⟨least, there, plainToo, same⟩
    have inside := List.mem_map_of_mem (f := formatLine (spaces width) (margin lines)) there
    have bound := margin_le inside (by rw [isPlain_formatLine blank there, plainToo])
    have shift := moved there plainToo
    omega
  · have inside := List.mem_map_of_mem (f := formatLine (spaces width) (margin lines)) member
    have plainToo := (isPlain_formatLine blank member).trans plain
    rcases exists_leadingBlanks_eq_margin inside plainToo with ⟨least, there, leastPlain, same⟩
    rcases List.mem_map.1 there with ⟨source, isLine, rfl⟩
    rw [isPlain_formatLine blank isLine] at leastPlain
    have bound := margin_le isLine leastPlain
    have shift := moved isLine leastPlain
    omega

/-- A line indented twice is the line indented the second time. -/
theorem formatLine_formatLine (member : line ∈ lines) (other : Nat) :
    formatLine (spaces other) (margin (lines.map (formatLine (spaces width) (margin lines))))
        (formatLine (spaces width) (margin lines) line) =
      formatLine (spaces other) (margin lines) line := by
  have blank := all_isBlank_spaces width
  have same := trim_formatLine blank member
  have kept := isPlain_formatLine blank member
  cases plain : isPlain line with
  | false => exact formatLine_of_not_plain plain same _ _ _
  | true =>
      have moved := @takeWhile_formatLine lines line width member plain
      have small : width ≤ leadingBlanks (formatLine (spaces width) (margin lines) line) := by
        rw [leadingBlanks, moved, List.length_append, spaces, List.length_replicate]
        omega
      have dropped : (spaces width ++ (line.takeWhile isBlank).drop (margin lines)).drop width =
          (line.takeWhile isBlank).drop (margin lines) :=
        List.drop_left' List.length_replicate
      rw [margin_map_formatLine member plain, formatLine_of_plain (kept.trans plain) small, same,
        moved, dropped, formatLine_of_plain plain (margin_le member plain)]

section Comment

variable {first comment : Text}

theorem format_eq (cut : splitOn '\n' comment = first :: lines) (indent : Text) :
    format indent comment =
      joinLines ((indent ++ first.trim) :: lines.map (formatLine indent (margin lines))) := by
  rw [format, cut]

/-- Lines indented anew are cut where they were joined. -/
theorem splitOn_joinLines (cut : splitOn '\n' comment = first :: lines) (lead : Nat) :
    splitOn '\n'
        (joinLines ((spaces lead ++ first.trim) ::
          lines.map (formatLine (spaces width) (margin lines)))) =
      (spaces lead ++ first.trim) :: lines.map (formatLine (spaces width) (margin lines)) := by
  have clean : ∀ line ∈ first :: lines, '\n' ∉ line := by
    intro line member
    rw [← cut] at member
    exact Text.not_mem_of_mem_splitOn member
  have noBreak (width : Nat) : '\n' ∉ spaces width := by simp [spaces]
  apply Text.splitOn_join
  intro piece member
  rcases List.mem_cons.1 member with rfl | later
  · intro inside
    rcases List.mem_append.1 inside with lead | own
    · exact noBreak _ lead
    · exact clean first List.mem_cons_self ((Text.trim_sublist first).subset own)
  · rcases List.mem_map.1 later with ⟨line, isLine, rfl⟩
    apply not_mem_formatLine (by decide) (noBreak width)
    exact clean line (List.mem_cons_of_mem first isLine)

/-- An indented comment without the indentation in front of it. -/
theorem drop_format (cut : splitOn '\n' comment = first :: lines) :
    (format (spaces width) comment).drop width =
      joinLines ((spaces 0 ++ first.trim) ::
        lines.map (formatLine (spaces width) (margin lines))) := by
  rw [format_eq cut, joinLines, joinLines, Text.join_cons, Text.join_cons, List.append_assoc]
  exact List.drop_left' List.length_replicate

theorem format_drop_format (width other : Nat) (comment : Text) :
    format (spaces other) ((format (spaces width) comment).drop width) =
      format (spaces other) comment := by
  rcases Text.exists_splitOn_eq '\n' comment with ⟨first, lines, cut⟩
  have again := @splitOn_joinLines lines width first comment cut 0
  rw [drop_format cut, format_eq again, format_eq cut, List.map_map]
  have same : (spaces 0 ++ first.trim).trim = first.trim := Text.trim_trim first
  have others := List.map_congr_left fun line member =>
    @formatLine_formatLine lines line width member other
  rw [same, ← others]
  rfl

end Comment

/-- The lines of two comments are as many, and continuation lines with a margin stand as far apart
in the one as in the other. -/
structure SameShape (lines others : List Text) : Prop where
  /-- There are as many lines. -/
  length_eq : others.length = lines.length
  /-- Lines behind the first that neither are blank nor start with a star keep their distance. -/
  leadingBlanks_sub : ∀ i j line next, 0 < i → 0 < j →
    lines[i]? = some line → lines[j]? = some next → isPlain line → isPlain next →
    ∃ moved movedNext, others[i]? = some moved ∧ others[j]? = some movedNext ∧
      (leadingBlanks moved : Int) - leadingBlanks movedNext =
        leadingBlanks line - leadingBlanks next

theorem sameShape_map_formatLine (width : Nat) (first start : Text) (lines : List Text) :
    SameShape (first :: lines) (start :: lines.map (formatLine (spaces width) (margin lines))) where
  length_eq := by simp
  leadingBlanks_sub := by
    intro i j line next iPos jPos there thereNext plain plainNext
    rcases Nat.exists_eq_add_one.2 iPos with ⟨i, rfl⟩
    rcases Nat.exists_eq_add_one.2 jPos with ⟨j, rfl⟩
    rw [List.getElem?_cons_succ] at there thereNext
    have shift := @leadingBlanks_formatLine _ _ width (List.mem_of_getElem? there) plain
    have shiftNext := @leadingBlanks_formatLine _ _ width (List.mem_of_getElem? thereNext) plainNext
    have found {k : Nat} {line : Text} (inLines : lines[k]? = some line) :
        (start :: lines.map (formatLine (spaces width) (margin lines)))[k + 1]? =
          some (formatLine (spaces width) (margin lines) line) := by
      rw [List.getElem?_cons_succ, List.getElem?_map, inLines]
      rfl
    refine ⟨_, _, found there, found thereNext, ?_⟩
    omega

/-- Indenting a comment anew forgets how it was indented before, and keeps the number of its lines
and the distances between the plain ones. -/
theorem format_forgets_indentation (width other : Nat) (comment : Text) :
    format (spaces other) ((format (spaces width) comment).drop width) =
        format (spaces other) comment ∧
      SameShape (splitOn '\n' comment) (splitOn '\n' (format (spaces width) comment)) := by
  refine ⟨format_drop_format width other comment, ?_⟩
  rcases Text.exists_splitOn_eq '\n' comment with ⟨first, lines, cut⟩
  rw [format_eq cut, splitOn_joinLines cut, cut]
  exact sameShape_map_formatLine width first _ lines

end BlockComment

end IdlFormat
