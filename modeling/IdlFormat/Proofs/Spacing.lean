import IdlFormat.Layout.Attribute
import IdlFormat.Layout.BlockComment
import IdlFormat.Layout.Clean
import IdlFormat.Statement
import IdlFormat.Text.Lines

/-!
# Changes of spacing

Every change of spacing adds and removes blanks only. With `Text.compact` as the view of a text
without its blanks, each of them leaves the view alone.
-/

namespace IdlFormat

@[simp]
theorem isBlank_space : isBlank ' ' = true := by decide

/-- The blanks one by one. -/
theorem toNat_mem_of_isBlank {c : Char} (blank : isBlank c) :
    c.toNat ∈ [0x09, 0x0A, 0x0B, 0x0C, 0x0D, 0x1C, 0x1D, 0x1E, 0x1F, 0x20, 0x85, 0xA0, 0x1680,
      0x2000, 0x2001, 0x2002, 0x2003, 0x2004, 0x2005, 0x2006, 0x2007, 0x2008, 0x2009, 0x200A, 0x2028,
      0x2029, 0x202F, 0x205F, 0x3000] := by
  simp only [isBlank, Text.inRanges, Bool.if_false_left, Bool.and_eq_true, Bool.or_eq_true,
    Bool.not_eq_true', decide_eq_true_eq, decide_eq_false_iff_not, Bool.false_eq_true, or_false] at blank
  simp only [List.mem_cons, List.not_mem_nil, or_false]
  omega

theorem isBlank_opening : isBlank '(' = false := by decide

theorem isBlank_of_isIndent {c : Char} (indents : isIndent c) : isBlank c := by
  simp only [isIndent, Bool.or_eq_true, decide_eq_true_eq] at indents
  rcases indents with rfl | rfl <;> decide

@[simp]
theorem isBlank_break : isBlank '\n' = true := by decide

namespace Text

@[simp]
theorem compact_nil : compact [] = [] := rfl

theorem compact_cons (c : Char) (text : Text) :
    compact (c :: text) = if IdlFormat.isBlank c then compact text else c :: compact text := by
  simp only [compact, List.filter_cons]
  cases IdlFormat.isBlank c <;> rfl

@[simp]
theorem compact_cons_space (text : Text) : compact (' ' :: text) = compact text :=
  compact_cons ' ' text

@[simp]
theorem compact_append (left right : Text) : compact (left ++ right) = compact left ++ compact right :=
  List.filter_append left right

/-- A step that takes no notice of blanks has the same end along the rest of a text. -/
theorem foldlM_compact {State : Type} {step : State → Char → Option State}
    (passes : ∀ {c}, IdlFormat.isBlank c → ∀ state, step state c = some state) (state : State)
    (text : Text) : text.compact.foldlM step state = text.foldlM step state := by
  induction text generalizing state with
  | nil => rfl
  | cons c rest ih =>
      rw [compact_cons]
      split
      · next blank => simp [passes blank, ih]
      · simp only [List.foldlM_cons, ih]

theorem compact_compact (text : Text) : text.compact.compact = text.compact := by
  simp [compact]

theorem compact_eq_nil {text : Text} (blank : text.all IdlFormat.isBlank) : text.compact = [] := by
  simpa [compact] using blank

theorem compact_takeWhile {inClass : Char → Bool} (blank : ∀ c, inClass c → IdlFormat.isBlank c)
    (text : Text) : compact (text.takeWhile inClass) = [] := by
  apply compact_eq_nil
  rw [List.all_eq_true]
  exact fun c member => blank c (List.all_eq_true.1 List.all_takeWhile c member)

theorem compact_dropWhile {inClass : Char → Bool} (blank : ∀ c, inClass c → IdlFormat.isBlank c)
    (text : Text) : compact (text.dropWhile inClass) = text.compact := by
  conv => rhs; rw [← List.takeWhile_append_dropWhile (p := inClass) (l := text)]
  rw [compact_append, compact_takeWhile blank, List.nil_append]

theorem compact_trimStart (text : Text) : text.trimStart.compact = text.compact :=
  compact_dropWhile (fun _ blank => blank) text

theorem trimEnd_cons (c : Char) (text : Text) :
    trimEnd (c :: text) =
      if IdlFormat.isBlank c && (trimEnd text).isEmpty then [] else c :: trimEnd text := rfl

theorem compact_trimEnd (text : Text) : text.trimEnd.compact = text.compact := by
  induction text with
  | nil => rfl
  | cons c text ih =>
      rw [trimEnd_cons]
      split
      · next dropped =>
          simp only [Bool.and_eq_true, List.isEmpty_iff] at dropped
          rw [compact_cons, if_pos dropped.1, ← ih, dropped.2]
      · rw [compact_cons, compact_cons, ih]

theorem trimEnd_sublist (text : Text) : text.trimEnd.Sublist text := by
  induction text with
  | nil => exact List.Sublist.refl _
  | cons c rest ih =>
      rw [trimEnd_cons]
      split
      · exact List.nil_sublist _
      · exact ih.cons_cons c

theorem trim_sublist (text : Text) : text.trim.Sublist text :=
  (trimEnd_sublist text.trimStart).trans (List.dropWhile_sublist IdlFormat.isBlank)

theorem length_trim_le (text : Text) : text.trim.length ≤ text.length :=
  text.trim_sublist.length_le

theorem trimEnd_cons_of_not_blank {c : Char} (notBlank : IdlFormat.isBlank c = false) (rest : Text) :
    trimEnd (c :: rest) = c :: trimEnd rest := by
  simp [trimEnd_cons, notBlank]

theorem trimEnd_eq_nil_of_compact {text : Text} (blank : text.compact = []) : text.trimEnd = [] := by
  induction text with
  | nil => rfl
  | cons c text ih =>
      rw [compact_cons] at blank
      split at blank
      · next isBlank => simp [trimEnd_cons, isBlank, ih blank]
      · simp at blank

theorem trimEnd_append {left right : Text} (filled : right.trimEnd ≠ []) :
    trimEnd (left ++ right) = left ++ trimEnd right := by
  induction left with
  | nil => rfl
  | cons c left ih =>
      rw [List.cons_append, trimEnd_cons, ih]
      simp [filled]

@[simp]
theorem compact_trim (text : Text) : text.trim.compact = text.compact := by
  rw [trim, compact_trimEnd, compact_trimStart]

theorem trim_eq_nil_iff (text : Text) : text.trim = [] ↔ text.compact = [] := by
  constructor
  · intro empty
    rw [← compact_trim, empty, compact_nil]
  · intro empty
    have blank : ∀ c ∈ text, IdlFormat.isBlank c := by simpa [compact] using empty
    have dropped := @List.dropWhile_append_of_pos _ _ _ [] blank
    rw [List.append_nil] at dropped
    rw [trim, trimStart, dropped]
    rfl

theorem trimStart_append {left : Text} (blank : left.all IdlFormat.isBlank) (right : Text) :
    trimStart (left ++ right) = trimStart right :=
  List.dropWhile_append_of_pos (List.all_eq_true.1 blank)

theorem trim_append {left : Text} (blank : left.all IdlFormat.isBlank) (right : Text) :
    trim (left ++ right) = trim right := by
  rw [trim, trimStart_append blank, trim]

theorem trimEnd_trimEnd (text : Text) : text.trimEnd.trimEnd = text.trimEnd := by
  induction text with
  | nil => rfl
  | cons c text ih =>
      rw [trimEnd_cons]
      split
      · rfl
      · next kept => rw [trimEnd_cons, ih, if_neg kept]

theorem trim_trimEnd (text : Text) : text.trimEnd.trim = text.trim := by
  induction text with
  | nil => rfl
  | cons c text ih =>
      rw [trimEnd_cons]
      split
      · next dropped =>
          simp only [Bool.and_eq_true, List.isEmpty_iff] at dropped
          rw [dropped.2] at ih
          rw [← List.singleton_append, trim_append (by simp [dropped.1]), ← ih]
      · by_cases blank : IdlFormat.isBlank c
        · rw [← List.singleton_append, trim_append (by simp [blank]), ih,
            ← @List.singleton_append _ _ text, trim_append (by simp [blank])]
        · have keeps (rest : Text) : trimStart (c :: rest) = c :: rest :=
            List.dropWhile_cons_of_neg blank
          rw [trim, trim, keeps, keeps, trimEnd_cons, trimEnd_cons, trimEnd_trimEnd]

theorem trim_trim (text : Text) : text.trim.trim = text.trim := by
  have parts := List.takeWhile_append_dropWhile (p := IdlFormat.isBlank) (l := text)
  calc text.trim.trim
      = text.trimStart.trim := trim_trimEnd _
    _ = trim (text.takeWhile IdlFormat.isBlank ++ text.trimStart) :=
        (trim_append List.all_takeWhile _).symm
    _ = text.trim := congrArg trim parts

theorem trim_between {lead last : Text} (leading : lead.all IdlFormat.isBlank)
    (trailing : last.all IdlFormat.isBlank) (text : Text) :
    trim (lead ++ text ++ last) = text.trim := by
  have ended : trimEnd (text ++ last) = text.trimEnd := by
    induction text with
    | nil => exact trimEnd_eq_nil_of_compact (compact_eq_nil trailing)
    | cons c rest ih => rw [List.cons_append, trimEnd_cons, ih, trimEnd_cons]
  rw [List.append_assoc, trim_append leading, ← trim_trimEnd, ended, trim_trimEnd]

/-- Trimming drops the blanks behind the last solid character and none before it. -/
theorem trim_append_cons {c : Char} (solid : IdlFormat.isBlank c = false) {last : Text}
    (trailing : last.all IdlFormat.isBlank) (text : Text) :
    trim (text ++ c :: last) = text.trimStart ++ [c] := by
  have ended : trimEnd (c :: last) = [c] := by
    rw [trimEnd_cons_of_not_blank solid, trimEnd_eq_nil_of_compact (compact_eq_nil trailing)]
  have start : trimStart (text ++ c :: last) = text.trimStart ++ c :: last := by
    have stays : List.dropWhile IdlFormat.isBlank (c :: last) = c :: last :=
      List.dropWhile_cons_of_neg (by simp [solid])
    rw [trimStart, trimStart, List.dropWhile_append, stays]
    split
    · next empty => rw [List.isEmpty_iff.1 empty, List.nil_append]
    · rfl
  rw [trim, start, trimEnd_append (by simp [ended]), ended]

/-- A text with more than blanks loses those behind the rest only. -/
theorem trimEnd_eq {text : Text} (filled : text.trim ≠ []) :
    text.trimEnd = text.takeWhile IdlFormat.isBlank ++ text.trim := by
  conv => lhs; rw [← List.takeWhile_append_dropWhile (p := IdlFormat.isBlank) (l := text)]
  exact trimEnd_append filled

theorem compact_collapseFrom (afterBlank : Bool) (text : Text) :
    (collapseFrom afterBlank text).compact = text.compact := by
  fun_induction collapseFrom afterBlank text <;> simp_all [compact_cons]

@[simp]
theorem compact_collapse (text : Text) : text.collapse.compact = text.compact :=
  compact_collapseFrom false text

theorem tighten_cons (mark c : Char) (text : Text) :
    tighten mark (c :: text) =
      if IdlFormat.isBlank c && (tighten mark text).head? == some mark then tighten mark text
      else c :: tighten mark text := rfl

@[simp]
theorem compact_tighten (mark : Char) (text : Text) : (text.tighten mark).compact = text.compact := by
  induction text with
  | nil => rfl
  | cons c text ih =>
      rw [tighten_cons]
      split
      · next dropped =>
          simp only [Bool.and_eq_true] at dropped
          rw [compact_cons, if_pos dropped.1, ih]
      · rw [compact_cons, compact_cons, ih]

@[simp]
theorem compact_spaceCommas (text : Text) : text.spaceCommas.compact = text.compact := by
  fun_induction spaceCommas text <;> simp_all [compact_cons]

theorem compact_respaceCommasFrom (afterComma : Bool) (text : Text) :
    (respaceCommasFrom afterComma text).compact = text.compact := by
  fun_induction respaceCommasFrom afterComma text <;> simp_all [compact_cons]

@[simp]
theorem compact_respaceCommas (text : Text) : text.respaceCommas.compact = text.compact := by
  rw [respaceCommas, compact_respaceCommasFrom, compact_tighten]

theorem compact_normalizeBreaks (text : Text) : text.normalizeBreaks.compact = text.compact := by
  have carriage : IdlFormat.isBlank '\r' = true := by decide
  fun_induction normalizeBreaks text with
  | case1 => rfl
  | case2 rest ih => simp [compact_cons, carriage, ih]
  | case3 c rest _ ih => by_cases isReturn : c = '\r' <;> simp [compact_cons, isReturn, carriage, ih]

theorem mem_of_mem_normalizeBreaks {text : Text} {c : Char} (member : c ∈ text.normalizeBreaks) :
    c = '\n' ∨ c ∈ text := by
  fun_induction normalizeBreaks text with
  | case1 => simp at member
  | case2 rest ih =>
      rcases List.mem_cons.1 member with isBreak | later
      · exact .inl isBreak
      · rcases ih later with isBreak | inside
        · exact .inl isBreak
        · exact .inr (by simp [inside])
  | case3 d rest _ ih =>
      rcases List.mem_cons.1 member with first | later
      · split at first
        · exact .inl first
        · exact .inr (by simp [first])
      · rcases ih later with isBreak | inside
        · exact .inl isBreak
        · exact .inr (List.mem_cons_of_mem _ inside)

theorem length_normalizeBreaks_le (text : Text) : text.normalizeBreaks.length ≤ text.length := by
  fun_induction normalizeBreaks text <;> simp <;> omega

theorem normalizeBreaks_eq_self {text : Text} (noReturn : '\r' ∉ text) :
    text.normalizeBreaks = text := by
  fun_induction normalizeBreaks text with
  | case1 => rfl
  | case2 rest ih => simp at noReturn
  | case3 c rest _ ih =>
      simp only [List.mem_cons, not_or] at noReturn
      rw [if_neg (Ne.symm noReturn.1), ih noReturn.2]

end Text

namespace Statement

@[simp]
theorem compact_padOperators (text : Text) : (padOperators text).compact = text.compact := by
  induction text with
  | nil => rfl
  | cons c text ih =>
      simp only [padOperators, List.flatMap_cons] at ih ⊢
      rw [Text.compact_append, ih]
      by_cases blank : isBlank c <;> split <;> simp [Text.compact_cons, blank]

@[simp]
theorem compact_spaceAfterBrackets (text : Text) :
    (spaceAfterBrackets text).compact = text.compact := by
  fun_induction spaceAfterBrackets text <;> simp_all [Text.compact_cons]

theorem compact_spaceKeywordsFrom (word text : Text) :
    (spaceKeywordsFrom word text).compact = text.compact := by
  fun_induction spaceKeywordsFrom word text <;> simp_all [Text.compact_cons]

@[simp]
theorem compact_respace (text : Text) : (respace text).compact = text.compact := by
  simp [respace, spaceKeywords, compact_spaceKeywordsFrom]

end Statement

namespace Attribute

theorem drop_leadingWord (text : Text) :
    text.drop text.leadingWord.length = text.dropWhile isWordChar := by
  calc text.drop text.leadingWord.length
      = (text.takeWhile isWordChar ++ text.dropWhile isWordChar).drop
          (text.takeWhile isWordChar).length := by
        rw [List.takeWhile_append_dropWhile, Text.leadingWord]
    _ = text.dropWhile isWordChar := List.drop_left

/-- A call is a word, maybe blanks, and its arguments in parentheses. -/
theorem eq_of_call? {text name inner : Text} (found : call? text = some (name, inner)) :
    name = text.leadingWord ∧ name ≠ [] ∧
      ∃ gap : Text, gap.all isBlank ∧ text = name ++ gap ++ '(' :: inner ++ [')'] := by
  simp only [call?, drop_leadingWord] at found
  split at found
  · next tail after =>
      split at found
      · next closed =>
          simp only [Option.some.injEq, Prod.mk.injEq] at found
          obtain ⟨rfl, rfl⟩ := found
          simp only [Bool.and_eq_true, Bool.not_eq_true', List.isEmpty_eq_false_iff,
            decide_eq_true_eq] at closed
          refine ⟨rfl, closed.1, (text.dropWhile isWordChar).takeWhile isBlank,
            List.all_takeWhile, ?_⟩
          obtain ⟨before, rfl⟩ := List.getLast?_eq_some_iff.1 closed.2
          have word := List.takeWhile_append_dropWhile (p := isWordChar) (l := text)
          have blanks := List.takeWhile_append_dropWhile (p := isBlank)
            (l := text.dropWhile isWordChar)
          rw [after] at blanks
          rw [List.dropLast_concat, Text.leadingWord, List.append_assoc, List.append_assoc,
            List.cons_append, blanks, word]
      · simp at found
  · simp at found

@[simp]
theorem compact_formatArguments (arguments : Text) :
    (formatArguments arguments).compact = arguments.compact := by
  simp only [formatArguments]
  split
  · exact arguments.compact_compact
  · split <;> simp

@[simp]
theorem compact_respace (text : Text) : (respace text).compact = text.compact := by
  simp only [respace]
  split
  · next name inner found =>
      obtain ⟨-, -, gap, blank, same⟩ := eq_of_call? found
      have view := congrArg Text.compact same
      simpa [Text.compact_eq_nil blank, Text.compact_cons, isBlank_opening] using view.symm
  · simp

end Attribute

theorem Style.all_isBlank_indent (style : Style) (level : Int) :
    (style.indent level).all isBlank := by
  simp [indent]

theorem Style.break_not_mem_indent (style : Style) (level : Int) :
    '\n' ∉ style.indent level := by
  simp [indent]

namespace BlockComment

theorem margin_le {lines : List Text} {line : Text} (member : line ∈ lines) (plain : isPlain line) :
    margin lines ≤ leadingBlanks line := by
  have inside : leadingBlanks line ∈ (lines.filter isPlain).map leadingBlanks :=
    List.mem_map.2 ⟨line, List.mem_filter.2 ⟨member, plain⟩, rfl⟩
  exact List.min?_getD_le_of_mem inside

theorem drop_margin {line : Text} {margin : Nat} (small : margin ≤ leadingBlanks line)
    (filled : line.trim ≠ []) :
    line.trimEnd.drop margin = (line.takeWhile isBlank).drop margin ++ line.trim := by
  rw [Text.trimEnd_eq filled, List.drop_append_of_le_length small]

theorem all_isBlank_drop (line : Text) (margin : Nat) :
    ((line.takeWhile isBlank).drop margin).all isBlank := by
  rw [List.all_eq_true]
  intro c member
  exact List.all_eq_true.1 List.all_takeWhile c (List.mem_of_mem_drop member)

theorem trim_drop_margin {line : Text} {margin : Nat} (small : margin ≤ leadingBlanks line)
    (filled : line.trim ≠ []) : Text.trim (line.trimEnd.drop margin) = line.trim := by
  rw [drop_margin small filled, Text.trim_append (all_isBlank_drop line margin), Text.trim_trim]

/-- A line indented anew differs from the old one at its ends only. -/
theorem trim_formatLine {indent : Text} (blank : indent.all isBlank) {lines : List Text}
    {line : Text} (member : line ∈ lines) :
    (formatLine indent (margin lines) line).trim = line.trim := by
  unfold formatLine
  simp only
  split
  · next empty =>
      rw [List.isEmpty_iff] at empty
      rw [empty]
      rfl
  · next filled =>
      rw [List.isEmpty_iff] at filled
      split
      · have space : List.all (indent ++ [' ']) isBlank := by simpa using blank
        rw [Text.trim_append space, Text.trim_trim]
      · next noStar =>
          have plain : isPlain line := by simp [isPlain, filled, noStar]
          rw [Text.trim_append blank, trim_drop_margin (margin_le member plain) filled]

/-- A line indented anew holds no characters but those of the line, of the indentation and spaces. -/
theorem not_mem_formatLine {c : Char} (notSpace : c ≠ ' ') {indent line : Text}
    (notIndent : c ∉ indent) (absent : c ∉ line) (margin : Nat) :
    c ∉ formatLine indent margin line := by
  have trimmed : c ∉ line.trim := fun inside => absent ((Text.trim_sublist line).subset inside)
  have dropped : c ∉ line.trimEnd.drop margin := fun inside =>
    absent ((Text.trimEnd_sublist line).subset (List.mem_of_mem_drop inside))
  unfold formatLine
  simp only
  split
  · exact List.not_mem_nil
  · split
    · simp [notSpace, notIndent, trimmed]
    · simp [notIndent, dropped]

end BlockComment

theorem compact_trimLineEnds (text : Text) : (Clean.trimLineEnds text).compact = text.compact := by
  induction text with
  | nil => rfl
  | cons c rest ih =>
      have cons : Clean.trimLineEnds (c :: rest) =
          if isIndent c && ((Clean.trimLineEnds rest).isEmpty ||
            (Clean.trimLineEnds rest).head? = some '\n') then Clean.trimLineEnds rest
          else c :: Clean.trimLineEnds rest := rfl
      rw [cons]
      split
      · next dropped =>
          rw [Text.compact_cons, if_pos (isBlank_of_isIndent (Bool.and_eq_true_iff.1 dropped).1), ih]
      · rw [Text.compact_cons, Text.compact_cons, ih]

theorem compact_capBreaksFrom (breaks : Nat) (text : Text) :
    (Clean.capBreaksFrom breaks text).compact = text.compact := by
  fun_induction Clean.capBreaksFrom breaks text <;> simp_all [Text.compact_cons]

theorem compact_finalize (text : Text) : (finalize text).compact = text.compact := by
  have leading (text : Text) : Text.compact (text.dropWhile (· = '\n')) = text.compact := by
    apply Text.compact_dropWhile
    intro c isBreak
    rw [of_decide_eq_true isBreak]
    decide
  have last : Text.compact ['\n'] = [] := by decide
  simp only [finalize]
  rw [Text.compact_append, Text.compact_trimEnd, leading, last, Clean.capBreaks,
    compact_capBreaksFrom, compact_trimLineEnds, List.append_nil]

end IdlFormat
