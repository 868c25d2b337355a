import IdlFormat.Proofs.AliasList
import IdlFormat.Proofs.Settling

/-!
# Spans that return

A paragraph that starts with blanks is cut where its span starts. This file reads directives and
braces again: a directive keeps its line breaks, and a brace stands on a line of its own.
-/

namespace IdlFormat

namespace Text

theorem exists_concat_of_trimEnd {text : Text} (filled : text ≠ []) (kept : text.trimEnd = text) :
    ∃ front c, text = front ++ [c] ∧ IdlFormat.isBlank c = false := by
  obtain ⟨front, c, rfl⟩ := (List.eq_nil_or_concat text).resolve_left filled
  have last : (Text.trimEnd (front.concat c)).getLast? = some c := by
    rw [kept, List.concat_eq_append, List.getLast?_concat]
  exact ⟨front, c, List.concat_eq_append, Text.isBlank_getLast_trimEnd last⟩

end Text

theorem ne_of_isBlank {c d : Char} (blank : isBlank c) (solid : isBlank d = false) : c ≠ d := by
  rintro rfl
  simp [solid] at blank

theorem ne_break_of_isBlank {c : Char} (solid : isBlank c = false) : c ≠ '\n' := by
  rintro rfl
  revert solid
  decide

theorem isIndent_of_isBlank {c : Char} (solid : isBlank c = false) : isIndent c = false := by
  cases indents : isIndent c with
  | false => rfl
  | true =>
      rw [isIndent, Bool.or_eq_true, decide_eq_true_eq, decide_eq_true_eq] at indents
      rcases indents with rfl | rfl <;> revert solid <;> decide

namespace Clean

theorem trimLineEnds_append_indent (text : Text) {gap : Text} (indents : gap.all isIndent) :
    trimLineEnds (text ++ gap) = trimLineEnds text := by
  have none : trimLineEnds gap = [] := by
    induction gap with
    | nil => rfl
    | cons c gap ih =>
        rw [List.all_cons, Bool.and_eq_true] at indents
        rw [trimLineEnds_cons, ih indents.2, indents.1]
        rfl
  rw [trimLineEnds, trimLineEnds, List.foldr_append]
  exact congrArg (List.foldr _ · text) none

theorem trimLineEnds_of_line {line : Text} (inLine : '\n' ∉ line) (kept : line.trimEnd = line) :
    trimLineEnds line = line := by
  refine trimLineEnds_of_trimmed ((trimmed_iff_lines line).2 fun piece member c last => ?_)
  rw [Text.splitOn_of_not_mem inLine, List.mem_singleton] at member
  rw [member, ← kept] at last
  exact isIndent_of_isBlank (Text.isBlank_getLast_trimEnd last)

theorem capBreaks_of_line {line : Text} (inLine : '\n' ∉ line) : capBreaks line = line := by
  refine capBreaksFrom_of_cappedFrom ((cappedFrom_iff (Nat.zero_le 2) line).2 fun inside => inLine ?_)
  exact inside.subset List.mem_cons_self

/-- A line is its own paragraph, without the blanks that it ends in. -/
theorem comesTo_line_append {line : Text} (inLine : '\n' ∉ line) (filled : line ≠ [])
    (kept : line.trimEnd = line) {gap : Text} (indents : gap.all isIndent) :
    ComesTo [line ++ gap] line := by
  obtain ⟨front, c, rfl, solid⟩ := Text.exists_concat_of_trimEnd filled kept
  have starts : front.head? ≠ some '\n' := fun first =>
    inLine (List.mem_append_left _ (List.mem_of_mem_head? first))
  have cleaned : trimLineEnds (Text.joinLines [front ++ [c] ++ gap]) = front ++ [c] := by
    rw [Text.joinLines, Text.join, trimLineEnds_append_indent _ indents,
      trimLineEnds_of_line inLine kept]
  have comes := comesTo_of_inLine (ne_break_of_isBlank solid) cleaned starts
  rwa [capBreaks_of_line inLine] at comes

theorem comesTo_line {line : Text} (inLine : '\n' ∉ line) (filled : line ≠ [])
    (kept : line.trimEnd = line) : ComesTo [line] line := by
  have nothing : List.all [] isIndent := rfl
  have comes := comesTo_line_append inLine filled kept nothing
  rwa [List.append_nil] at comes

/-- Behind two line breaks there is no third. -/
theorem head?_capBreaksFrom_two (text : Text) : (capBreaksFrom 2 text).head? ≠ some '\n' := by
  induction text with
  | nil => simp [capBreaksFrom]
  | cons c text ih =>
      rw [capBreaksFrom]
      split
      · exact ih
      · next inLine => simpa using inLine

/-- A paragraph is not empty. -/
theorem ComesTo.ne_nil {lines : List Text} {paragraph : Text} (comes : ComesTo lines paragraph) :
    paragraph ≠ [] := by
  rintro rfl
  refine head?_capBreaksFrom_two (trimLineEnds (unlines lines ++ [])) ?_
  rw [comes 2 []]
  rfl

/-- A line in front of others is a paragraph in front of theirs. -/
theorem ComesTo.cons {line : Text} {lines : List Text} {own paragraph : Text}
    (first : ComesTo [line] own)
    (others : ComesTo lines paragraph) : ComesTo (line :: lines) (own ++ '\n' :: paragraph) := by
  intro breaks rest
  have parts : unlines (line :: lines) ++ rest = unlines [line] ++ (unlines lines ++ rest) := by
    simp [unlines]
  have last : (own ++ '\n' :: paragraph).getLast? = paragraph.getLast? := by
    obtain ⟨front, c, rfl⟩ := (List.eq_nil_or_concat paragraph).resolve_left others.ne_nil
    rw [List.concat_eq_append, ← List.cons_append, ← List.append_assoc, List.getLast?_concat,
      List.getLast?_concat]
  rw [parts, first, others, last, List.append_assoc, List.cons_append]

end Clean

namespace Span

open Clean (ComesTo settle unlines)
open Token (outline insideEnumFrom)
open Layout (rowLines tokenLines)

variable {style : Style} {before row : List Token} {closes : Bool} {span again : Span} {level : Nat}
  {lead body more paragraph : Text} {settled : List Text → Prop}

theorem split_of_cut {c : Char} {tail rest : Text} (solid : isBlank c = false)
    (cut : Span.cut c tail = (again, rest)) : split (c :: tail) = again :: split rest := by
  have start : (c :: tail).dropWhile isBlank = c :: tail := by
    rw [List.dropWhile_cons_of_neg (by simp [solid])]
  rw [split_of_start start, cut]

/-- A paragraph is read again, if the span behind its blanks is. -/
theorem readAgain_of_cut {c : Char} {tail rest : Text} (blank : lead.all isBlank)
    (solid : isBlank c = false) (cut : Span.cut c (tail ++ more) = (again, rest))
    (behind : split rest = split more) (sameRule : again.rule = span.rule)
    (reread : ∀ earlier, insideEnumFrom 0 earlier = insideEnumFrom 0 before →
      ∃ rowAgain own, Token.ofSpan earlier closes again = .ok rowAgain ∧
        rowAgain.map outline = row.map outline ∧
        rowLines style level rowAgain = .ok own ∧ settled own) :
    ReadAgain style before closes span level row (lead ++ c :: tail) more settled := by
  refine ⟨again, ?_, sameRule, reread⟩
  rw [List.append_assoc, split_blank_append blank, List.cons_append, split_of_cut solid cut, behind]

/-- The same for a span that gives a single token, whatever stands in front of it. -/
theorem readAgain_of_token {c : Char} {tail : Text} {token other : Token} {own : List Text}
    (again : Span) (blank : lead.all isBlank) (solid : isBlank c = false)
    (cut : Span.cut c (tail ++ more) = (again, more)) (sameRule : again.rule = span.rule)
    (found : ∀ earlier, Token.ofSpan earlier closes again = .ok [other])
    (same : other.outline = token.outline) (printed : tokenLines style level other = .ok own)
    (comes : settled own) :
    ReadAgain style before closes span level [token] (lead ++ c :: tail) more settled :=
  readAgain_of_cut blank solid cut rfl sameRule fun earlier _ =>
    ⟨[other], own, found earlier, congrArg (fun outline => [outline]) same,
      (Layout.rowLines_single other).trans printed, comes⟩

/-- A span returns, if its lines come to a paragraph that is read again behind every span. -/
theorem returns_of_comesTo {after : Text}
    (again : ∀ level row lines, Token.ofSpan before closes span = .ok row →
      rowLines style level row = .ok lines →
      ∃ paragraph, ComesTo lines paragraph ∧ Text.trimEnd paragraph = paragraph ∧
        ∀ more, (split more).head?.map rule = (split after).head?.map rule →
          (split after = [] → more = []) →
          ReadAgain style before closes span level row paragraph ('\n' :: more)
            (ComesTo · paragraph)) :
    Returns style before closes span after := by
  intro level row lines found printed
  obtain ⟨paragraph, comes, kept, reread⟩ := again level row lines found printed
  refine ⟨fun filled => ⟨paragraph, comes, fun more same => reread more same (absurd · filled)⟩,
    fun isLast => ?_⟩
  have nothing : split [] = [] := split_eq_nil_of_dropWhile rfl
  obtain ⟨span, cut, sameRule, tokens⟩ := reread [] (by rw [nothing, isLast]) fun _ => rfl
  refine ⟨paragraph, fun breaks => (comes.settle_eq breaks).trans kept, span, cut, sameRule,
    fun earlier same => ?_⟩
  obtain ⟨rowAgain, own, foundAgain, sameRow, printedAgain, comesAgain⟩ := tokens earlier same
  exact ⟨rowAgain, own, foundAgain, sameRow, printedAgain,
    fun breaks => (comesAgain.settle_eq breaks).trans kept⟩

/-- A span that is printed on one line returns, if the line is cut off as a span that gives the same
line. -/
theorem returns_of_line {after : Text} {c : Char} {tail : Text} {token other : Token} (again : Span)
    (shift : Nat → Nat) (found : Token.ofSpan before closes span = .ok [token])
    (printed : ∀ level, tokenLines style level token = .ok [style.indent (shift level) ++ c :: tail])
    (solid : isBlank c = false) (kept : Text.trimEnd (c :: tail) = c :: tail)
    (inLine : '\n' ∉ c :: tail)
    (cut : ∀ more, Span.cut c (tail ++ '\n' :: more) = (again, '\n' :: more))
    (sameRule : again.rule = span.rule)
    (foundAgain : ∀ earlier, Token.ofSpan earlier closes again = .ok [other])
    (same : other.outline = token.outline)
    (printedAgain : ∀ level,
      tokenLines style level other = .ok [style.indent (shift level) ++ c :: tail]) :
    Returns style before closes span after := by
  refine returns_of_comesTo fun level row lines own laid => ?_
  rw [found] at own
  obtain rfl := Except.ok.inj own
  rw [Layout.rowLines_single, printed] at laid
  obtain rfl := Except.ok.inj laid
  have ended : Text.trimEnd (style.indent (shift level) ++ c :: tail) =
      style.indent (shift level) ++ c :: tail := by
    rw [Text.trimEnd_append (by rw [kept]; simp), kept]
  have inWhole : '\n' ∉ style.indent (shift level) ++ c :: tail :=
    fun member => (List.mem_append.1 member).elim (style.break_not_mem_indent _) inLine
  have comes := Clean.comesTo_line inWhole (by simp) ended
  exact ⟨_, comes, ended, fun more _ _ => readAgain_of_token again (style.all_isBlank_indent _) solid
    (cut more) sameRule foundAgain same (printedAgain level) comes⟩

/-- An opening brace returns. -/
theorem returns_braceOpen (style : Style) (before : List Token) (closes : Bool) (after : Text) :
    Returns style before closes .braceOpen after := by
  refine returns_of_line .braceOpen (fun level => level) rfl (fun _ => rfl) (by decide)
    (by decide) (by decide) (fun more => ?_) rfl (fun _ => rfl) rfl (fun _ => rfl)
  simp [Span.cut, Comment.form?]

end Span

namespace CloseBrace

/-- A printed closing brace stays on its line and ends in no blank. -/
theorem Fused.formatCloseBrace_line {text : Text} (fused : Fused text) :
    '\n' ∉ Layout.formatCloseBrace text ∧
      Text.trimEnd (Layout.formatCloseBrace text) = Layout.formatCloseBrace text := by
  cases fused with
  | alone => decide
  | semicolon => decide
  | aliases list =>
      obtain ⟨beads, listed, rfl⟩ := list.exists_beads
      rw [formatCloseBrace_aliases listed]
      constructor
      · intro member
        rcases List.mem_append.1 member with inside | last
        · rcases List.mem_cons.1 inside with brace | inside
          · revert brace
            decide
          · rcases List.mem_cons.1 inside with space | inside
            · revert space
              decide
            · have space := Bead.eq_space_of_mem_spell inside (by decide)
              revert space
              decide
        · revert last
          decide
      · rw [Text.trimEnd_append (by decide)]
        rfl

/-- A closing brace returns with what is fused to it. -/
theorem returns (style : Style) (before : List Token) (closes : Bool) (rest : Text) :
    Span.Returns style before closes (.braceClose (cut rest).token ('}' :: (cut rest).taken))
      (cut rest).rest := by
  obtain ⟨after, shape, stable, again⟩ := (fused_cut rest).rereading
  obtain ⟨inLine, kept⟩ := (fused_cut rest).formatCloseBrace_line
  rw [shape] at inLine kept
  refine Span.returns_of_line (.braceClose ('}' :: after) ('}' :: after)) (fun level => level - 1) rfl
    (fun level => ?_) (by decide) kept inLine (fun more => ?_) rfl (fun _ => rfl) rfl
    (fun level => ?_)
  · rw [← shape]
    rfl
  · have found := again ('\n' :: more) (.inr rfl)
    rw [shape] at found
    simp [Span.cut, Comment.form?, found]
  · have same : Layout.formatCloseBrace ('}' :: after) = '}' :: after := by rw [← shape, stable]
    conv => rhs; rw [← same]
    rfl

end CloseBrace

namespace Directive

open Clean (trimLineEnds capBreaks capBreaksFrom settle unlines)

variable {continued : Bool} {text : Text}

/-- A text that is cut off whole, if nothing follows. -/
def IsWhole (continued : Bool) (text : Text) : Prop :=
  cutFrom continued text = (text, [])

theorem isWhole_of_append {left : Text} (right more : Text)
    (cut : (cutFrom continued (left ++ right)).1 = left ++ more) : IsWhole continued left := by
  induction left generalizing continued with
  | nil => rfl
  | cons c left ih =>
      rw [List.cons_append, cutFrom] at cut
      rw [IsWhole, cutFrom]
      split
      · next stops => simp [stops] at cut
      · next goesOn =>
          simp only [goesOn] at cut
          have inner : cutFrom _ left = (left, []) := ih (List.cons.inj cut).2
          simp [inner]

theorem isWhole_cutFrom (continued : Bool) (text : Text) :
    IsWhole continued (cutFrom continued text).1 :=
  isWhole_of_append (cutFrom continued text).2 []
    (by rw [cutFrom_append, List.append_nil])

/-- Behind a whole directive a line break ends it or continues it. -/
theorem IsWhole.cutFrom_break (whole : IsWhole continued text) :
    cutFrom continued (text ++ ['\n']) = (text, ['\n']) ∨
      cutFrom continued (text ++ ['\n']) = (text ++ ['\n'], []) := by
  induction text generalizing continued with
  | nil => cases continued <;> decide
  | cons c text ih =>
      rw [IsWhole, cutFrom] at whole
      rw [List.cons_append, cutFrom]
      split at whole
      · simp at whole
      · next goesOn =>
          simp only [goesOn]
          simp only [Prod.mk.injEq, List.cons.injEq, true_and] at whole
          rcases ih (Prod.ext whole.1 whole.2) with ends | continues
          · exact .inl (by simp [ends])
          · exact .inr (by simp [continues])

theorem isWhole_trimLineEnds (whole : IsWhole continued text) :
    IsWhole continued (trimLineEnds text) := by
  rcases whole.cutFrom_break with ends | continues
  · have again := cutFrom_trimLineEnds (by rw [ends]; simp) []
    rw [ends] at again
    exact isWhole_of_append _ [] (by rw [again, List.append_nil])
  · have wholeToo : IsWhole continued (text ++ ['\n']) := continues
    rcases wholeToo.cutFrom_break with ends | continuesToo
    · have again := cutFrom_trimLineEnds (by rw [ends]; simp) []
      rw [ends, Clean.trimLineEnds_append_break, List.append_assoc] at again
      exact isWhole_of_append _ ['\n'] (by rw [again]; rfl)
    · -- no directive goes on over an empty line
      have single := not_infix_cutFrom continued (text ++ ['\n'] ++ ['\n'])
      rw [continuesToo] at single
      exact absurd ⟨text, [], by simp⟩ single

theorem IsWhole.not_infix (whole : IsWhole continued text) : ¬ ['\n', '\n'] <:+: text := by
  have single := not_infix_cutFrom continued text
  rwa [whole] at single

theorem IsWhole.capBreaksFrom_eq {rest : Text} (whole : IsWhole false ('#' :: rest)) (breaks : Nat) :
    capBreaksFrom breaks ('#' :: rest) = '#' :: rest := by
  rw [Clean.capBreaksFrom_of_starts (by simp)]
  refine Clean.capBreaksFrom_of_cappedFrom
    ((Clean.cappedFrom_iff (Nat.zero_le 2) _).2 fun inside => ?_)
  exact whole.not_infix (List.IsInfix.trans ⟨[], ['\n'], rfl⟩ inside)

/-- A whole directive without blanks at the ends of its lines is its own paragraph. -/
theorem IsWhole.comesTo {line rest : Text} (whole : IsWhole false ('#' :: rest))
    (cleaned : trimLineEnds line = '#' :: rest) : Clean.ComesTo [line] ('#' :: rest) := by
  obtain ⟨front, c, parts⟩ :=
    (List.eq_nil_or_concat ('#' :: rest)).resolve_left (List.cons_ne_nil _ _)
  rw [List.concat_eq_append] at parts
  have capped : capBreaks ('#' :: rest) = '#' :: rest := whole.capBreaksFrom_eq 0
  have starts {front more : Text} (parts : '#' :: rest = front ++ more) :
    front.head? ≠ some '\n' := by
    intro first
    have same := congrArg List.head? parts
    rw [List.head?_append, first] at same
    simp at same
  have single : trimLineEnds (Text.joinLines [line]) = '#' :: rest := cleaned
  by_cases isBreak : c = '\n'
  · obtain ⟨start, d, rfl⟩ : ∃ start d, front = start ++ [d] := by
      rcases List.eq_nil_or_concat front with rfl | ⟨start, d, rfl⟩
      · simp [isBreak] at parts
      · exact ⟨start, d, List.concat_eq_append⟩
    rw [isBreak, List.append_assoc, List.singleton_append] at parts
    have inLine : d ≠ '\n' := by
      rintro rfl
      exact whole.not_infix ⟨start, [], by simp [parts]⟩
    have comes := Clean.comesTo_of_break inLine (single.trans parts) (starts parts)
    rwa [← parts, capped] at comes
  · have comes := Clean.comesTo_of_inLine isBreak (single.trans parts) (starts parts)
    rwa [← parts, capped] at comes

/-- What a whole directive settles to. -/
theorem IsWhole.settle_eq {line rest : Text} (whole : IsWhole false ('#' :: rest))
    (cleaned : trimLineEnds line = '#' :: rest) (breaks : Nat) :
    settle breaks (unlines [line]) = Text.trimEnd ('#' :: rest) := by
  have single : unlines [line] = line ++ ['\n'] := List.append_nil _
  rw [single, Clean.settle_append_break, settle, cleaned, whole.capBreaksFrom_eq]

/-- A directive is read again in front of anything that follows it on a line of its own, and at the
end of a text, where it may take the line break behind it. -/
theorem returns (style : Style) (before : List Token) (closes : Bool) (rest : Text) :
    Span.Returns style before closes (.directive (cut ('#' :: rest)).1) (cut ('#' :: rest)).2 := by
  intro level row lines found printed
  obtain rfl := Except.ok.inj found
  rw [Layout.rowLines_single] at printed
  obtain rfl := Except.ok.inj printed
  obtain ⟨tail, cleaned⟩ := exists_trimLineEnds_cut rest
  have cleaned : trimLineEnds (cutFrom false ('#' :: rest)).1 = '#' :: tail := cleaned
  have whole := isWhole_trimLineEnds (isWhole_cutFrom false ('#' :: rest))
  have trimmed := Clean.trimmed_trimLineEnds (cutFrom false ('#' :: rest)).1
  rw [cleaned] at whole trimmed
  have cutHash (text : Text) :
      Span.cut '#' text = (.directive (cut ('#' :: text)).1, (cut ('#' :: text)).2) := by
    simp [Span.cut, Comment.form?]
  have nothing : List.all [] isBlank := rfl
  constructor
  · intro filled
    have stops : (cutFrom false ('#' :: rest)).2 ≠ [] := by
      intro none
      rw [cut, none] at filled
      exact filled (Span.split_eq_nil_of_dropWhile rfl)
    refine ⟨'#' :: tail, whole.comesTo cleaned, fun more _ => ?_⟩
    have again := cutFrom_trimLineEnds stops more
    rw [cleaned] at again
    refine Span.readAgain_of_token (.directive ('#' :: tail)) nothing (by decide) ?_ rfl
      (fun _ => rfl) rfl rfl (whole.comesTo (Clean.trimLineEnds_of_trimmed trimmed))
    rw [cutHash, ← List.cons_append, cut, again]
  · intro _
    have shape : Text.trimEnd ('#' :: tail) = '#' :: Text.trimEnd tail :=
      Text.trimEnd_cons_of_not_blank (by decide) tail
    have wholeLast : IsWhole false ('#' :: Text.trimEnd tail) := by
      obtain ⟨blanks, parts⟩ := Text.trimEnd_prefix ('#' :: tail)
      rw [shape] at parts
      refine isWhole_of_append blanks blanks ?_
      rw [parts, whole]
    have cleanLast : trimLineEnds ('#' :: Text.trimEnd tail) = '#' :: Text.trimEnd tail := by
      have trimmedLast := trimmed.trimEnd
      rw [shape] at trimmedLast
      exact Clean.trimLineEnds_of_trimmed trimmedLast
    have kept : Text.trimEnd ('#' :: Text.trimEnd tail) = '#' :: Text.trimEnd tail := by
      rw [← shape, Text.trimEnd_trimEnd]
    have settled (breaks : Nat) :
        settle breaks (unlines ['#' :: Text.trimEnd tail]) = '#' :: Text.trimEnd tail :=
      (wholeLast.settle_eq cleanLast breaks).trans kept
    refine ⟨'#' :: Text.trimEnd tail, fun breaks => (whole.settle_eq cleaned breaks).trans shape, ?_⟩
    rcases wholeLast.cutFrom_break with ends | continues
    · refine Span.readAgain_of_token (.directive ('#' :: Text.trimEnd tail)) nothing
        (by decide) ?_ rfl (fun _ => rfl) rfl rfl settled
      rw [cutHash, ← List.cons_append, cut, ends]
    · have behind : Span.split [] = Span.split ['\n'] := by
        rw [Span.split_eq_nil_of_dropWhile rfl, Span.split_break]
      have cutLast : Span.cut '#' (Text.trimEnd tail ++ ['\n']) =
          (.directive ('#' :: Text.trimEnd tail ++ ['\n']), []) := by
        rw [cutHash, ← List.cons_append, cut, continues]
      refine Span.readAgain_of_cut nothing (by decide) cutLast behind rfl
        fun _ _ => ⟨[⟨.directive, '#' :: Text.trimEnd tail ++ ['\n'], none⟩],
          ['#' :: Text.trimEnd tail ++ ['\n']], rfl, rfl, Layout.rowLines_single _, fun breaks => ?_⟩
      · have double : unlines ['#' :: Text.trimEnd tail ++ ['\n']] =
            unlines ['#' :: Text.trimEnd tail] ++ ['\n'] := by simp [unlines]
        rw [double, Clean.settle_append_break, settled]

end Directive

end IdlFormat
