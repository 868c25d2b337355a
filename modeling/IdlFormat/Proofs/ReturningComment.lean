import IdlFormat.Proofs.CommentMargin
import IdlFormat.Proofs.Returning
import IdlFormat.Proofs.SolidLines

/-!
# Comments that return

The clean-up only drops and adds empty lines in a comment that is indented anew, and neither the
margin nor the place of the `*/` depends on those: `BlockComment.Thinned`.
-/

namespace IdlFormat

namespace Clean

open Text (splitOn)

/-- The clean-up of line breaks keeps the lines that are not empty. -/
theorem splitOn_capBreaksFrom (breaks : Nat) (text : Text) :
    (splitOn '\n' (capBreaksFrom breaks text)).filter (!·.isEmpty) =
        (splitOn '\n' text).filter (!·.isEmpty) ∧
      (breaks < 2 → ∃ line lines others, splitOn '\n' text = line :: lines ∧
        splitOn '\n' (capBreaksFrom breaks text) = line :: others ∧
        others.filter (!·.isEmpty) = lines.filter (!·.isEmpty)) := by
  induction text generalizing breaks with
  | nil => exact ⟨rfl, fun _ => ⟨[], [], [], rfl, rfl, rfl⟩⟩
  | cons c rest ih =>
      rw [capBreaksFrom]
      split
      · next isBreak =>
          subst isBreak
          rw [Text.splitOn_cons_self]
          split
          · rw [Text.splitOn_cons_self]
            exact ⟨(ih _).1, fun _ => ⟨[], _, _, rfl, rfl, (ih _).1⟩⟩
          · next many => exact ⟨(ih _).1, fun few => absurd few many⟩
      · next inLine =>
          obtain ⟨line, lines, others, cut, cutToo, same⟩ := (ih 0).2 (by decide)
          rw [Text.splitOn_cons inLine cut, Text.splitOn_cons inLine cutToo]
          exact ⟨by simp [same], fun _ => ⟨_, _, _, rfl, rfl, same⟩⟩

theorem head?_capBreaks (text : Text) : (capBreaks text).head? = text.head? := by
  cases text with
  | nil => rfl
  | cons c rest =>
      rw [capBreaks, capBreaksFrom]
      split <;> rfl

/-- What the clean-up makes of a comment that ends in no blank is its own paragraph. -/
theorem comesTo_comment {printed : Text} {c : Char} (trimmed : trimLineEnds printed = printed)
    (last : printed.getLast? = some c) (solid : isBlank c = false)
    (starts : printed.head? ≠ some '\n') :
    ComesTo [printed] (capBreaks printed) ∧ ComesTo [capBreaks printed] (capBreaks printed) ∧
      (capBreaks printed).getLast? = some c := by
  have paragraph {printed : Text} (trimmed : trimLineEnds printed = printed)
      (last : printed.getLast? = some c) (starts : printed.head? ≠ some '\n') :
      ComesTo [printed] (capBreaks printed) := by
    obtain ⟨front, rfl⟩ := List.getLast?_eq_some_iff.1 last
    have single : trimLineEnds (Text.joinLines [front ++ [c]]) = front ++ [c] := trimmed
    exact comesTo_of_inLine (ne_break_of_isBlank solid) single fun first =>
      starts (by rw [List.head?_append, first]; rfl)
  have lastCapped : (capBreaks printed).getLast? = some c := by
    obtain ⟨front, rfl⟩ := List.getLast?_eq_some_iff.1 last
    rw [capBreaks, capBreaksFrom_append_cons (ne_break_of_isBlank solid)]
    simp [capBreaksFrom]
  have again := trimmed_trimLineEnds printed
  rw [trimmed] at again
  have stable : capBreaks (capBreaks printed) = capBreaks printed :=
    capBreaksFrom_of_cappedFrom (cappedFrom_capBreaksFrom (Nat.zero_le 2) printed)
  have clean : trimLineEnds (capBreaks printed) = capBreaks printed :=
    trimLineEnds_of_trimmed (trimmed_capBreaksFrom again)
  have comes := paragraph clean lastCapped (by rwa [head?_capBreaks])
  rw [stable] at comes
  exact ⟨paragraph trimmed last starts, comes, lastCapped⟩

/-- At the end of a text the rest of a comment settles to itself. -/
theorem settle_comment {printed : Text} (trimmed : trimLineEnds printed = printed)
    (starts : printed.head? ≠ some '\n') (breaks : Nat) :
    settle breaks printed = (capBreaks printed).trimEnd ∧
      settle breaks (capBreaks printed).trimEnd = (capBreaks printed).trimEnd := by
  have again := trimmed_trimLineEnds printed
  rw [trimmed] at again
  have clean : trimLineEnds (capBreaks printed).trimEnd = (capBreaks printed).trimEnd :=
    trimLineEnds_of_trimmed (trimmed_capBreaksFrom again).trimEnd
  obtain ⟨blanks, parts⟩ := Text.trimEnd_prefix (capBreaks printed)
  have capped : CappedFrom 0 (capBreaks printed).trimEnd := by
    have whole : CappedFrom 0 (capBreaks printed) := cappedFrom_capBreaksFrom (Nat.zero_le 2) printed
    rw [cappedFrom_iff (Nat.zero_le 2)] at whole ⊢
    exact fun inside => whole (inside.trans (List.IsPrefix.isInfix ⟨blanks, by simpa using parts⟩))
  have startsLast : (capBreaks printed).trimEnd.head? ≠ some '\n' := by
    intro first
    rw [← head?_capBreaks, ← parts, List.head?_append, first] at starts
    exact starts rfl
  have stable : capBreaks (capBreaks printed).trimEnd = (capBreaks printed).trimEnd :=
    capBreaksFrom_of_cappedFrom capped
  constructor
  · rw [settle, trimmed, capBreaksFrom_of_starts starts]
  · rw [settle, clean, capBreaksFrom_of_starts startsLast, stable, Text.trimEnd_trimEnd]

end Clean

namespace BlockComment

open Text (splitOn joinLines)

variable {width : Nat} {lines others : List Text}

/-- A line that is indented anew ends in the trimmed line, and is empty if that is. -/
theorem exists_formatLine_eq {line : Text} (member : line ∈ lines) :
    ∃ front, formatLine (spaces width) (margin lines) line = front ++ line.trim ∧
      (line.trim = [] → front = []) := by
  cases plain : isPlain line with
  | true =>
      refine ⟨spaces width ++ (line.takeWhile isBlank).drop (margin lines), ?_, fun empty => ?_⟩
      · rw [formatLine_of_plain plain (margin_le member plain), List.append_assoc]
      · exact absurd empty (isPlain_iff.1 plain).1
  | false =>
      unfold formatLine
      dsimp only
      split
      · next empty =>
          rw [List.isEmpty_iff] at empty
          exact ⟨[], by rw [empty]; rfl, fun _ => rfl⟩
      · next filled =>
          rw [List.isEmpty_iff] at filled
          split
          · exact ⟨_, rfl, fun empty => absurd empty filled⟩
          · next noStar => simp [isPlain_iff.2 ⟨filled, noStar⟩] at plain

theorem trimEnd_formatLine {line : Text} (member : line ∈ lines) :
    Text.trimEnd (formatLine (spaces width) (margin lines) line) =
      formatLine (spaces width) (margin lines) line := by
  obtain ⟨front, shape, empty⟩ := @exists_formatLine_eq width lines line member
  have kept : Text.trimEnd line.trim = line.trim := Text.trimEnd_trimEnd _
  rw [shape]
  by_cases filled : line.trim = []
  · rw [empty filled, filled]
    rfl
  · rw [Text.trimEnd_append (by rwa [kept]), kept]

/-- A comment that ends in no blank is printed with the same end. -/
theorem getLast?_format {body : Text} {c : Char} (last : body.getLast? = some c)
    (solid : isBlank c = false) (width : Nat) :
    (format (spaces width) ('/' :: '*' :: body)).getLast? = some c := by
  obtain ⟨start, lines, cut⟩ := Text.exists_splitOn_eq '\n' body
  have cutWhole : splitOn '\n' ('/' :: '*' :: body) = ('/' :: '*' :: start) :: lines :=
    Text.splitOn_cons (by decide) (Text.splitOn_cons (by decide) cut)
  have joined := Text.joinLines_splitOn body
  rw [cut] at joined
  rw [format_eq cutWhole]
  have nothing : List.all [] isBlank := rfl
  rcases List.eq_nil_or_concat lines with rfl | ⟨init, line, rfl⟩
  · obtain ⟨front, rfl⟩ := List.getLast?_eq_some_iff.1 last
    obtain rfl : start = front ++ [c] := joined
    have trimmed := Text.trim_append_cons solid nothing ('/' :: '*' :: front)
    simp only [List.cons_append] at trimmed
    rw [trimmed]
    show (spaces width ++ _).getLast? = some c
    rw [← List.append_assoc, List.getLast?_concat]
  · have parts (start : Text) (lines : List Text) (line : Text) :
        joinLines (start :: (lines ++ [line])) = joinLines (start :: lines) ++ ['\n'] ++ line := by
      simp [joinLines, Text.join_cons]
    rw [List.concat_eq_append] at joined ⊢
    rw [List.map_append, List.map_singleton, parts]
    rw [parts] at joined
    have filled : line ≠ [] := by
      rintro rfl
      rw [← joined, List.append_nil, List.getLast?_concat] at last
      exact absurd (Option.some.inj last) (ne_break_of_isBlank solid).symm
    have lastLine : line.getLast? = some c := by
      rw [← joined, List.getLast?_append] at last
      cases ended : line.getLast? with
      | none => exact absurd (List.getLast?_eq_none_iff.1 ended) filled
      | some d => rwa [ended, Option.some_or] at last
    obtain ⟨front, rfl⟩ := List.getLast?_eq_some_iff.1 lastLine
    obtain ⟨lead, shape, -⟩ :=
      @exists_formatLine_eq width (init ++ [front ++ [c]]) (front ++ [c]) (by simp)
    rw [shape, Text.trim_append_cons solid nothing front, ← List.append_assoc,
      ← List.append_assoc, List.getLast?_concat]

/-- Lines that are the given ones indented anew, except for empty lines. -/
def Thinned (width : Nat) (lines others : List Text) : Prop :=
  others.filter (!·.isEmpty) =
    (lines.map (formatLine (spaces width) (margin lines))).filter (!·.isEmpty)

namespace Thinned

variable (thinned : Thinned width lines others)
include thinned

theorem of_mem {other : Text} (member : other ∈ others) :
    other = [] ∨ ∃ line ∈ lines, other = formatLine (spaces width) (margin lines) line := by
  by_cases empty : other = []
  · exact .inl empty
  · have inside : other ∈ others.filter (!·.isEmpty) :=
      List.mem_filter.2 ⟨member, by simpa using empty⟩
    rw [thinned] at inside
    obtain ⟨line, isLine, same⟩ := List.mem_map.1 (List.mem_filter.1 inside).1
    exact .inr ⟨line, isLine, same.symm⟩

theorem trimEnd {other : Text} (member : other ∈ others) : Text.trimEnd other = other := by
  rcases thinned.of_mem member with rfl | ⟨line, isLine, rfl⟩
  · rfl
  · exact trimEnd_formatLine isLine

theorem break_not_mem (clean : ∀ line ∈ lines, '\n' ∉ line) {other : Text} (member : other ∈ others) :
    '\n' ∉ other := by
  have blank : '\n' ∉ spaces width := by simp [spaces]
  rcases thinned.of_mem member with rfl | ⟨line, isLine, rfl⟩
  · exact List.not_mem_nil
  · exact not_mem_formatLine (by decide) blank (clean line isLine) (margin lines)

/-- Empty lines have no margin. -/
theorem margin_eq :
    margin others = margin (lines.map (formatLine (spaces width) (margin lines))) := by
  have plain (lines : List Text) :
      lines.filter isPlain = (lines.filter (!·.isEmpty)).filter isPlain := by
    rw [List.filter_filter]
    refine List.filter_congr fun line _ => ?_
    cases line with
    | nil => rfl
    | cons c line => exact (Bool.and_true _).symm
  rw [margin, margin, plain, thinned, ← plain]

/-- Lines that are indented already stay. -/
theorem map_formatLine : others.map (formatLine (spaces width) (margin others)) = others := by
  rw [thinned.margin_eq]
  conv => rhs; rw [← List.map_id others]
  refine List.map_congr_left fun other member => ?_
  rcases thinned.of_mem member with rfl | ⟨line, isLine, rfl⟩
  · rfl
  · exact formatLine_formatLine isLine width

/-- A comment that is indented already stays. -/
theorem format_joinLines (clean : ∀ line ∈ lines, '\n' ∉ line) {first : Text} (inLine : '\n' ∉ first)
    (trimmed : first.trim = first) :
    format (spaces width) (joinLines (first :: others)) =
      joinLines ((spaces width ++ first) :: others) := by
  have cut : splitOn '\n' (joinLines (first :: others)) = first :: others :=
    Text.splitOn_join fun line member => (List.mem_cons.1 member).elim (· ▸ inLine)
      (thinned.break_not_mem clean)
  rw [format_eq cut, thinned.map_formatLine, trimmed]

theorem keepSolid_eq : Text.keepSolid others = Text.keepSolid lines := by
  have filled (lines : List Text) :
      Text.keepSolid (lines.filter (!·.isEmpty)) = Text.keepSolid lines := by
    induction lines with
    | nil => rfl
    | cons line lines ih =>
        cases line <;>
          simp [Text.keepSolid_cons, ih, Text.trim, Text.trimStart, Text.trimEnd, Text.dropEndWhile]
  have moved : (lines.map (formatLine (spaces width) (margin lines))).map Text.trim =
      lines.map Text.trim := by
    rw [List.map_map]
    exact List.map_congr_left fun line member => trim_formatLine (all_isBlank_spaces width) member
  rw [← filled, thinned, filled, Text.keepSolid, moved, Text.keepSolid]

end Thinned

/-- Trimming only drops empty lines behind the last that is not empty, if no line ends in blanks. -/
theorem exists_trimEnd_joinLines {line : Text} (kept : line.trimEnd = line)
    (keptOthers : ∀ other ∈ others, Text.trimEnd other = other) :
    ∃ fewer, Text.trimEnd (joinLines (line :: others)) = joinLines (line :: fewer) ∧
      fewer.filter (!·.isEmpty) = others.filter (!·.isEmpty) := by
  induction others using List.reverseRecOn with
  | nil => exact ⟨[], kept, rfl⟩
  | append_singleton others last ih =>
      obtain ⟨fewer, same, keeps⟩ :=
        ih fun other member => keptOthers other (List.mem_append_left _ member)
      have parts : joinLines (line :: (others ++ [last])) =
        joinLines (line :: others) ++ '\n' :: last := by
        simp [joinLines, Text.join_cons]
      have keptLast := keptOthers last (by simp)
      by_cases empty : last = []
      · refine ⟨fewer, ?_, by simp [keeps, empty]⟩
        rw [parts, empty, ← same, ← Text.trimEnd_append_trimEnd]
        simp [show Text.trimEnd ['\n'] = [] by decide]
      · refine ⟨others ++ [last], ?_, rfl⟩
        have ended : Text.trimEnd (joinLines (line :: others) ++ ['\n'] ++ last) =
            joinLines (line :: others) ++ ['\n'] ++ last := by
          rw [Text.trimEnd_append (by rwa [keptLast]), keptLast]
        rw [parts]
        simpa using ended

/-- The lines of a block comment, the first one trimmed. -/
theorem exists_lines (body : Text) :
    ∃ first lines, (∀ line ∈ ('/' :: '*' :: first) :: lines, '\n' ∉ line) ∧
      Text.trim ('/' :: '*' :: first) = '/' :: '*' :: first ∧
      (∀ width, format (spaces width) ('/' :: '*' :: body) =
        joinLines ((spaces width ++ '/' :: '*' :: first) ::
          lines.map (formatLine (spaces width) (margin lines)))) ∧
      Text.solidLines ('/' :: '*' :: body) = ('/' :: '*' :: first) :: Text.keepSolid lines := by
  obtain ⟨start, lines, cut⟩ := Text.exists_splitOn_eq '\n' body
  have cutWhole : splitOn '\n' ('/' :: '*' :: body) = ('/' :: '*' :: start) :: lines :=
    Text.splitOn_cons (by decide) (Text.splitOn_cons (by decide) cut)
  have trimmed : Text.trim ('/' :: '*' :: start) = '/' :: '*' :: start.trimEnd := by
    show Text.trimEnd ('/' :: '*' :: start) = _
    rw [Text.trimEnd_cons_of_not_blank (by decide), Text.trimEnd_cons_of_not_blank (by decide)]
  have again : Text.trim ('/' :: '*' :: start.trimEnd) = '/' :: '*' :: start.trimEnd := by
    rw [← trimmed, Text.trim_trim]
  have clean : ∀ line ∈ ('/' :: '*' :: start) :: lines, '\n' ∉ line := by
    rw [← cutWhole]
    exact fun line member => Text.not_mem_of_mem_splitOn member
  refine ⟨start.trimEnd, lines, fun line member => ?_, again, fun width => ?_, ?_⟩
  · rcases List.mem_cons.1 member with rfl | later
    · rw [← trimmed]
      exact fun inside => clean _ List.mem_cons_self ((Text.trim_sublist _).subset inside)
    · exact clean line (List.mem_cons_of_mem _ later)
  · rw [format_eq cutWhole, trimmed]
  · rw [Text.solidLines, cutWhole, Text.keepSolid_cons, trimmed]
    rfl

/-- A comment body that is written with the given indentation and says the same as another. -/
structure Laid (width : Nat) (body laid : Text) : Prop where
  /-- Written with the indentation it stays. -/
  format_eq : format (spaces width) ('/' :: '*' :: laid) = spaces width ++ '/' :: '*' :: laid
  /-- It has the same lines, without blank ones and blanks at their ends. -/
  solidLines_eq : Text.solidLines ('/' :: '*' :: laid) = Text.solidLines ('/' :: '*' :: body)

theorem Thinned.laid {body first : Text} (thinned : Thinned width lines others)
    (clean : ∀ line ∈ ('/' :: '*' :: first) :: lines, '\n' ∉ line)
    (trimmed : Text.trim ('/' :: '*' :: first) = '/' :: '*' :: first)
    (solid : Text.solidLines ('/' :: '*' :: body) = ('/' :: '*' :: first) :: Text.keepSolid lines) :
    ∃ laid, joinLines ((spaces width ++ '/' :: '*' :: first) :: others) =
        spaces width ++ '/' :: '*' :: laid ∧ Laid width body laid := by
  have inLine := clean _ List.mem_cons_self
  have cleanLines : ∀ line ∈ lines, '\n' ∉ line := fun line member =>
    clean line (List.mem_cons_of_mem _ member)
  have shape : joinLines (('/' :: '*' :: first) :: others) =
      '/' :: '*' :: (first ++ others.flatMap (['\n'] ++ ·)) := by
    rw [joinLines, Text.join_cons]
    rfl
  have whole : joinLines ((spaces width ++ '/' :: '*' :: first) :: others) =
      spaces width ++ '/' :: '*' :: (first ++ others.flatMap (['\n'] ++ ·)) := by
    rw [← shape, joinLines, joinLines, Text.join_cons, Text.join_cons, List.append_assoc]
  refine ⟨_, whole, ?_, ?_⟩
  · rw [← shape, thinned.format_joinLines cleanLines inLine trimmed, whole, shape]
  · have cut : splitOn '\n' (joinLines (('/' :: '*' :: first) :: others)) =
        ('/' :: '*' :: first) :: others :=
      Text.splitOn_join fun line member => (List.mem_cons.1 member).elim (· ▸ inLine)
        (thinned.break_not_mem cleanLines)
    rw [← shape, Text.solidLines, cut, Text.keepSolid_cons, thinned.keepSolid_eq, solid, trimmed]
    rfl

/-- What the clean-up makes of a comment that is indented anew, and what is left of that at the end
of a text, with and without the line break there. -/
theorem exists_laid (width : Nat) (body : Text) :
    Clean.trimLineEnds (format (spaces width) ('/' :: '*' :: body)) =
        format (spaces width) ('/' :: '*' :: body) ∧
      (∃ laid, Clean.capBreaks (format (spaces width) ('/' :: '*' :: body)) =
          spaces width ++ '/' :: '*' :: laid ∧ Laid width body laid) ∧
      ∃ laid, Text.trimEnd (Clean.capBreaks (format (spaces width) ('/' :: '*' :: body))) =
          spaces width ++ '/' :: '*' :: laid ∧ Laid width body (laid ++ ['\n']) := by
  obtain ⟨first, lines, clean, trimmed, printed, solid⟩ := exists_lines body
  have inLine : '\n' ∉ spaces width ++ '/' :: '*' :: first := by
    intro member
    rcases List.mem_append.1 member with blank | own
    · simp [spaces] at blank
    · exact clean _ List.mem_cons_self own
  have kept : Text.trimEnd (spaces width ++ '/' :: '*' :: first) =
    spaces width ++ '/' :: '*' :: first := by
    have ended : Text.trimEnd ('/' :: '*' :: first) = '/' :: '*' :: first := by
      rw [← trimmed]
      exact Text.trimEnd_trimEnd _
    rw [Text.trimEnd_append (by simp [ended]), ended]
  have own : Thinned width lines (lines.map (formatLine (spaces width) (margin lines))) := rfl
  have cleanLines : ∀ line ∈ lines, '\n' ∉ line := fun line member =>
    clean line (List.mem_cons_of_mem _ member)
  have cut : splitOn '\n' (format (spaces width) ('/' :: '*' :: body)) =
      (spaces width ++ '/' :: '*' :: first) ::
        lines.map (formatLine (spaces width) (margin lines)) := by
    rw [printed]
    exact Text.splitOn_join fun line member => (List.mem_cons.1 member).elim (· ▸ inLine)
      (own.break_not_mem cleanLines)
  obtain ⟨line, same, others, cutSame, cutCapped, keeps⟩ :=
    (Clean.splitOn_capBreaksFrom 0 (format (spaces width) ('/' :: '*' :: body))).2 (by decide)
  rw [cut, List.cons.injEq] at cutSame
  obtain ⟨rfl, rfl⟩ := cutSame
  have thinned : Thinned width lines others := keeps
  have capped : Clean.capBreaks (format (spaces width) ('/' :: '*' :: body)) =
      joinLines ((spaces width ++ '/' :: '*' :: first) :: others) := by
    rw [← cutCapped, Text.joinLines_splitOn]
    rfl
  refine ⟨Clean.trimLineEnds_of_trimmed
    ((Clean.trimmed_iff_lines _).2 fun line member c last => ?_), ?_, ?_⟩
  · rw [cut] at member
    have keptLine : Text.trimEnd line = line :=
      (List.mem_cons.1 member).elim (· ▸ kept) own.trimEnd
    rw [← keptLine] at last
    exact isIndent_of_isBlank (Text.isBlank_getLast_trimEnd last)
  · rw [capped]
    exact thinned.laid clean trimmed solid
  · obtain ⟨fewer, ended, keepsFewer⟩ := exists_trimEnd_joinLines kept fun other => thinned.trimEnd
    have thinnedFewer : Thinned width lines fewer := keepsFewer.trans thinned
    have thinnedBreak : Thinned width lines (fewer ++ [[]]) := by
      rw [Thinned, List.filter_append, ← thinnedFewer]
      simp
    obtain ⟨laid, shape, -⟩ := thinnedFewer.laid clean trimmed solid
    obtain ⟨broken, shapeBreak, laidBreak⟩ := thinnedBreak.laid clean trimmed solid
    have parts : joinLines ((spaces width ++ '/' :: '*' :: first) :: (fewer ++ [[]])) =
        joinLines ((spaces width ++ '/' :: '*' :: first) :: fewer) ++ ['\n'] := by
      simp [joinLines, Text.join_cons]
    rw [parts, shape, List.append_assoc, List.append_cancel_left_eq] at shapeBreak
    obtain rfl : laid ++ ['\n'] = broken := by simpa using shapeBreak
    exact ⟨laid, by rw [capped, ended, shape], laidBreak⟩

end BlockComment

namespace Comment

open Clean (trimLineEnds capBreaks capBreaksFrom settle unlines)
open BlockComment (spaces Laid)

/-- Whether a body is closed can be told from its lines without blank ones and blanks at their
ends. -/
theorem closes_eq_any (body : Text) : closes body = (Text.solidLines body).any closes := by
  have solid (lines : List Text) : (Text.keepSolid lines).any closes = lines.any closes := by
    induction lines with
    | nil => rfl
    | cons line lines ih =>
        rw [Text.keepSolid_cons, List.any_append, ih, List.any_cons, ← closes_trim line]
        cases shape : line.trim <;> simp [closes]
  have joined (line : Text) (lines : List Text) :
      closes (Text.joinLines (line :: lines)) = (line :: lines).any closes := by
    induction lines generalizing line with
    | nil => exact (Bool.or_false _).symm
    | cons next lines ih =>
        rw [Text.joinLines_cons_cons, closes_append_break, ih, List.any_cons (a := line)]
  obtain ⟨line, lines, cut⟩ := Text.exists_splitOn_eq '\n' body
  rw [Text.solidLines, solid, cut, ← joined, ← cut, Text.joinLines_splitOn]

theorem closes_congr {body other : Text}
    (same : Text.solidLines ('/' :: '*' :: other) = Text.solidLines ('/' :: '*' :: body)) :
    closes other = closes body := by
  rw [closes_eq_any, solidLines_body_congr same, ← closes_eq_any]

/-- A body that is not closed runs on to the end. -/
theorem isBody_of_not_closes {body : Text} (notClosed : closes body = false) : IsBody body := by
  have parts := throughClose_append body
  have rest : (throughClose body).2 = [] := by
    refine (closes_throughClose body).resolve_left fun closed => ?_
    have whole := closes_append closed (throughClose body).2
    rw [parts, notClosed] at whole
    cases whole
  rw [rest, List.append_nil] at parts
  exact Prod.ext parts rest

/-- However many lines a block comment has, it is indented anew. -/
theorem tokenLines_block (style : Style) (level : Nat) (text : Text) :
    Layout.tokenLines style level ⟨.comment, text, some text⟩ =
      .ok [BlockComment.format (style.indent level) text] := by
  rw [Layout.tokenLines]
  dsimp only
  rw [Token.multilineText?, if_pos rfl]
  by_cases multiline : '\n' ∈ text
  · simp [Option.filter, multiline]
  · have single := Text.splitOn_of_not_mem multiline
    rw [BlockComment.format, single]
    simp [Option.filter, multiline, Text.joinLines, Text.join]

theorem cut_block {body more : Text} (whole : IsBody body) (stops : closes body ∨ more = []) :
    Span.cut '/' ('*' :: body ++ more) = (.comment .block ('/' :: '*' :: body), more) := by
  have found := cut_block_append whole stops
  simp only [List.cons_append] at found
  simp [Span.cut, form?, found]

variable {style : Style} {before : List Token} {closesBody : Bool} {body after : Text}

/-- A block comment that is closed keeps its end and is read again in front of anything. -/
theorem returns_closed (whole : IsBody body) (closed : closes body) :
    Span.Returns style before closesBody (.comment .block ('/' :: '*' :: body)) after := by
  refine Span.returns_of_comesTo fun level row lines found printed => ?_
  obtain rfl := Except.ok.inj found
  rw [Layout.rowLines_single, tokenLines_block] at printed
  obtain rfl := Except.ok.inj printed
  obtain ⟨width, indented⟩ : ∃ width, style.indent level = spaces width := ⟨_, rfl⟩
  obtain ⟨trimmed, ⟨laid, capped, isLaid⟩, -⟩ := BlockComment.exists_laid width body
  have slash : isBlank '/' = false := by decide
  have last := BlockComment.getLast?_format (Segment.getLast?_of_closes whole closed) slash width
  have starts : (BlockComment.format (spaces width) ('/' :: '*' :: body)).head? ≠ some '\n' := by
    rw [← Clean.head?_capBreaks, capped]
    cases width <;> simp [spaces, List.replicate_succ]
  obtain ⟨comes, comesAgain, lastCapped⟩ := Clean.comesTo_comment trimmed last slash starts
  rw [indented]
  rw [capped] at comes comesAgain lastCapped
  have lastLaid : laid.getLast? = some '/' := by
    rw [List.getLast?_append, List.getLast?_cons_cons, List.getLast?_cons] at lastCapped
    cases shape : laid.getLast? with
    | none => simp [shape] at lastCapped
    | some c => simpa [shape] using lastCapped
  have closedLaid := isClosedBody_congr ⟨whole, closed⟩ lastLaid isLaid.solidLines_eq.symm
  have kept : Text.trimEnd (spaces width ++ '/' :: '*' :: laid) =
    spaces width ++ '/' :: '*' :: laid := by
    obtain ⟨front, same⟩ := List.getLast?_eq_some_iff.1 lastCapped
    rw [same, Text.trimEnd_append (by decide)]
    rfl
  refine ⟨_, comes, kept, fun more _ _ => ?_⟩
  refine Span.readAgain_of_token _ (BlockComment.all_isBlank_spaces width) slash
    (cut_block closedLaid.1 (.inl closedLaid.2)) rfl (fun _ => rfl) rfl
    (tokenLines_block style level _) ?_
  rwa [indented, isLaid.format_eq]

/-- A block comment that is not closed runs on to the end of the text, before and after. -/
theorem returns_open (notClosed : closes body = false) :
    Span.Returns style before closesBody (.comment .block ('/' :: '*' :: body)) [] := by
  intro level row lines found printed
  obtain rfl := Except.ok.inj found
  rw [Layout.rowLines_single, tokenLines_block] at printed
  obtain rfl := Except.ok.inj printed
  refine ⟨fun filled => absurd (Span.split_eq_nil_of_dropWhile rfl) filled, fun _ => ?_⟩
  obtain ⟨width, indented⟩ : ∃ width, style.indent level = spaces width := ⟨_, rfl⟩
  obtain ⟨trimmed, -, laid, ended, isLaid⟩ := BlockComment.exists_laid width body
  have starts : (BlockComment.format (spaces width) ('/' :: '*' :: body)).head? ≠ some '\n' := by
    obtain ⟨blanks, parts⟩ := Text.trimEnd_prefix
      (capBreaks (BlockComment.format (spaces width) ('/' :: '*' :: body)))
    rw [← Clean.head?_capBreaks, ← parts, ended]
    cases width <;> simp [spaces, List.replicate_succ]
  have settled := Clean.settle_comment trimmed starts
  rw [ended] at settled
  have single (line : Text) : unlines [line] = line ++ ['\n'] := List.append_nil _
  rw [indented]
  refine ⟨spaces width ++ '/' :: '*' :: laid, fun breaks => ?_, ?_⟩
  · rw [single, Clean.settle_append_break, (settled breaks).1]
  · have runsOn : closes (laid ++ ['\n']) = false := by
      rw [closes_congr isLaid.solidLines_eq, notClosed]
    have nothing : Span.split [] = Span.split ['\n'] := by
      rw [Span.split_eq_nil_of_dropWhile rfl, Span.split_break]
    have cut := cut_block (isBody_of_not_closes runsOn) (.inr (Eq.refl []))
    rw [List.append_nil, ← List.cons_append] at cut
    refine Span.readAgain_of_cut (BlockComment.all_isBlank_spaces width) (by decide) cut nothing rfl
      fun _ _ => ⟨_, _, rfl, rfl, (Layout.rowLines_single _).trans (tokenLines_block style level _),
        fun breaks => ?_⟩
    rw [indented, List.cons_append, isLaid.format_eq, single, ← List.cons_append,
      ← List.cons_append, ← List.append_assoc, Clean.settle_append_break, Clean.settle_append_break,
      (settled breaks).2]

/-- A line comment returns without the blanks at its end. -/
theorem returns_line (noBreak : '\n' ∉ body) :
    Span.Returns style before closesBody (.comment .line ('/' :: '/' :: body)) after := by
  have solid : isBlank '/' = false := by decide
  have trimmed (body : Text) : Text.trim ('/' :: '/' :: body) = '/' :: '/' :: Text.trimEnd body := by
    show Text.trimEnd ('/' :: '/' :: body) = _
    rw [Text.trimEnd_cons_of_not_blank solid, Text.trimEnd_cons_of_not_blank solid]
  have inLine : '\n' ∉ Text.trimEnd body := fun member =>
    noBreak ((Text.trimEnd_sublist body).subset member)
  have printed (body : Text) (level : Nat) :
      Layout.tokenLines style level ⟨.comment, '/' :: '/' :: body, none⟩ =
        .ok [style.indent level ++ '/' :: '/' :: Text.trimEnd body] := by
    rw [← trimmed]
    rfl
  have kept : Text.trimEnd ('/' :: '/' :: Text.trimEnd body) = '/' :: '/' :: Text.trimEnd body := by
    rw [Text.trimEnd_cons_of_not_blank solid, Text.trimEnd_cons_of_not_blank solid,
      Text.trimEnd_trimEnd]
  refine Span.returns_of_line (.comment .line ('/' :: '/' :: Text.trimEnd body)) (fun level => level)
    rfl (printed body) solid kept (by simpa using inLine) (fun more => ?_) rfl (fun _ => rfl) rfl
    fun level => ?_
  · have ends : ('\n' :: more).head? = some '\n' := rfl
    have found := cut_line_append inLine (.inr ends)
    simp only [List.cons_append] at found
    simp [Span.cut, form?, found]
  · rw [printed, Text.trimEnd_trimEnd]

/-- Every comment returns. -/
theorem returns {form : Form} {text : Text} (opens : form? text = some form) :
    Span.Returns style before closesBody (.comment form (cut form text).1) (cut form text).2 := by
  have fits := fits_cut opens
  cases form with
  | line =>
      obtain ⟨body, same, noBreak, -⟩ := fits
      rw [same]
      exact returns_line noBreak
  | block =>
      obtain ⟨body, same, whole, stops⟩ := fits
      rw [same]
      cases closed : closes body with
      | true => exact returns_closed whole closed
      | false =>
          have last : (cut .block text).2 = [] :=
            List.head?_eq_none_iff.1 (stops.resolve_left (by simp [closed]))
          rw [last]
          exact returns_open closed

end Comment

end IdlFormat
