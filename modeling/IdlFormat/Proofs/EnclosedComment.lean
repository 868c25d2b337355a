import IdlFormat.Proofs.AttributeBlock
import IdlFormat.Proofs.ReturningComment
import IdlFormat.Proofs.UnitScan

/-!
# Comments inside units under the clean-up

A unit keeps the line breaks of the comments that it encloses, so the clean-up works on those. Behind
a character that is not blank it starts anew (`Clean.cleaned_append_cons`), and its code has no line
breaks: what it makes of a unit is the unit with each comment cleaned on its own
(`Segment.split_cleaned`). What is read off a unit does not depend on what its comments hold, as long
as they stay closed and quiet.
-/

namespace IdlFormat

namespace Clean

/-- A text without the blanks at the ends of its lines and with at most one empty line in a row, as
it is left by the clean-up but for the ends of the document. -/
def cleaned (text : Text) : Text :=
  capBreaks (trimLineEnds text)

theorem exists_trimLineEnds_append (front : Text) {c : Char} (solid : isBlank c = false) :
    ∃ kept, ∀ rest, trimLineEnds (front ++ c :: rest) = kept ++ c :: trimLineEnds rest := by
  induction front with
  | nil =>
      refine ⟨[], fun rest => ?_⟩
      rw [List.nil_append, trimLineEnds_cons, isIndent_of_isBlank solid]
      rfl
  | cons d front ih =>
      obtain ⟨kept, same⟩ := ih
      have filled (rest : Text) : (kept ++ c :: rest).isEmpty = false := by simp
      have first (rest : Text) : (kept ++ c :: rest).head? = (kept ++ [c]).head? := by
        cases kept <;> rfl
      by_cases drops : isIndent d ∧ (kept ++ [c]).head? = some '\n'
      · refine ⟨kept, fun rest => ?_⟩
        rw [List.cons_append, trimLineEnds_cons, same, filled, first, if_pos (by simp [drops])]
      · refine ⟨d :: kept, fun rest => ?_⟩
        rw [List.cons_append, trimLineEnds_cons, same, filled, first, if_neg (by simpa using drops)]
        rfl

/-- Behind a character that is not blank the clean-up starts anew. -/
theorem cleaned_append_cons (front : Text) {c : Char} (solid : isBlank c = false) (rest : Text) :
    cleaned (front ++ c :: rest) = cleaned (front ++ [c]) ++ cleaned rest := by
  obtain ⟨kept, same⟩ := exists_trimLineEnds_append front solid
  have inLine := ne_break_of_isBlank solid
  have nothing : trimLineEnds [] = [] := rfl
  rw [cleaned, cleaned, same, same, nothing, capBreaks, capBreaks, capBreaksFrom_append_cons inLine,
    capBreaksFrom_append_cons inLine, cleaned, capBreaks, List.append_assoc]
  rfl

theorem cleaned_cons_solid {c : Char} (solid : isBlank c = false) (rest : Text) :
    cleaned (c :: rest) = c :: cleaned rest := by
  have alone : cleaned [c] = [c] := by
    have inLine := ne_break_of_isBlank solid
    rw [cleaned, trimLineEnds_cons, isIndent_of_isBlank solid]
    show capBreaks [c] = [c]
    rw [capBreaks, capBreaksFrom, if_neg inLine]
    rfl
  have parts := cleaned_append_cons [] solid rest
  rwa [List.nil_append, List.nil_append, alone] at parts

/-- So it does behind other characters in front of what is no line break. -/
theorem cleaned_cons {c d : Char} {rest : Text} (inLine : c ≠ '\n')
    (next : (cleaned rest).head? = some d) (inLineToo : d ≠ '\n') :
    cleaned (c :: rest) = c :: cleaned rest := by
  rw [cleaned, head?_capBreaks] at next
  obtain ⟨tail, same⟩ := List.head?_eq_some_iff.1 next
  rw [cleaned, cleaned, trimLineEnds_cons, if_neg, capBreaks, capBreaksFrom, if_neg inLine]
  · rfl
  · simp [same, inLineToo]

theorem getLast?_cleaned {text : Text} {c : Char} (last : text.getLast? = some c)
    (solid : isBlank c = false) : (cleaned text).getLast? = some c := by
  obtain ⟨front, rfl⟩ := List.getLast?_eq_some_iff.1 last
  obtain ⟨kept, same⟩ := exists_trimLineEnds_append front solid
  rw [cleaned, same, capBreaks, capBreaksFrom_append_cons (ne_break_of_isBlank solid)]
  exact List.getLast?_concat

theorem cleaned_cleaned (text : Text) : cleaned (cleaned text) = cleaned text := by
  have trimmed : Trimmed (cleaned text) := trimmed_capBreaksFrom (trimmed_trimLineEnds text)
  have capped : CappedFrom 0 (cleaned text) := cappedFrom_capBreaksFrom (Nat.zero_le 2) _
  rw [cleaned, trimLineEnds_of_trimmed trimmed]
  exact capBreaksFrom_of_cappedFrom capped

theorem cleaned_of_line {line : Text} (inLine : '\n' ∉ line) (kept : line.trimEnd = line) :
    cleaned line = line := by
  rw [cleaned, trimLineEnds_of_line inLine kept, capBreaks_of_line inLine]

theorem cleaned_sublist (text : Text) : (cleaned text).Sublist text := by
  have capped (breaks : Nat) (text : Text) : (capBreaksFrom breaks text).Sublist text := by
    fun_induction capBreaksFrom breaks text with
    | case1 => exact List.Sublist.refl _
    | case2 breaks rest less ih => exact ih.cons_cons _
    | case3 breaks rest more ih => exact ih.cons _
    | case4 breaks c rest other ih => exact ih.cons_cons _
  have trimmed : (trimLineEnds text).Sublist text := by
    induction text with
    | nil => exact List.Sublist.refl _
    | cons c rest ih =>
        rw [trimLineEnds_cons]
        split
        · exact ih.cons _
        · exact ih.cons_cons _
  exact (capped 0 _).trans trimmed

/-- A clean text is clean on both sides of a character that is not blank. -/
theorem cleaned_parts {front rest : Text} {c : Char} (solid : isBlank c = false)
    (whole : cleaned (front ++ c :: rest) = front ++ c :: rest) :
    cleaned (front ++ [c]) = front ++ [c] ∧ cleaned rest = rest := by
  rw [cleaned_append_cons front solid] at whole
  have first := cleaned_sublist (front ++ [c])
  have second := cleaned_sublist rest
  have size := congrArg List.length whole
  have less := first.length_le
  have lessToo := second.length_le
  simp only [List.length_append, List.length_cons, List.length_nil] at size less
  refine ⟨first.eq_of_length ?_, second.eq_of_length (by omega)⟩
  simp only [List.length_append, List.length_cons, List.length_nil]
  omega

/-- An indented text is cleaned behind its indentation. -/
theorem cleaned_append {lead text : Text} (inLine : '\n' ∉ lead) {c : Char}
    (first : (cleaned text).head? = some c) (notBreak : c ≠ '\n') :
    cleaned (lead ++ text) = lead ++ cleaned text := by
  induction lead with
  | nil => rfl
  | cons d lead ih =>
      rw [List.mem_cons, not_or] at inLine
      obtain ⟨e, head, notBreakToo⟩ : ∃ e, (cleaned (lead ++ text)).head? = some e ∧ e ≠ '\n' := by
        rw [ih inLine.2]
        cases lead with
        | nil => exact ⟨c, first, notBreak⟩
        | cons e lead => exact ⟨e, rfl, fun same => inLine.2 (same ▸ List.mem_cons_self)⟩
      rw [List.cons_append, cleaned_cons (Ne.symm inLine.1) head notBreakToo, ih inLine.2]
      rfl

/-- A text behind an indentation comes to what the clean-up makes of it, if it ends in no blank but
for the spaces and tabs that follow on its last line. -/
theorem comesTo_cleaned {lead text gap : Text} (inLine : '\n' ∉ lead) {c d : Char}
    (first : (cleaned text).head? = some c) (notBreak : c ≠ '\n')
    (last : text.getLast? = some d) (solid : isBlank d = false) (indents : gap.all isIndent) :
    ComesTo [lead ++ text ++ gap] (lead ++ cleaned text) := by
  have laid := cleaned_append inLine first notBreak
  obtain ⟨front, rfl⟩ := List.getLast?_eq_some_iff.1 last
  obtain ⟨kept, same⟩ := exists_trimLineEnds_append (lead ++ front) solid
  have own : trimLineEnds (lead ++ (front ++ [d])) = kept ++ [d] := by
    rw [← List.append_assoc]
    exact same []
  have single : trimLineEnds (Text.joinLines [lead ++ (front ++ [d]) ++ gap]) = kept ++ [d] :=
    (trimLineEnds_append_indent _ indents).trans own
  have comes := comesTo_of_inLine (ne_break_of_isBlank solid) single fun isBreak => by
    have starts : (cleaned (lead ++ (front ++ [d]))).head? = some '\n' := by
      rw [cleaned, head?_capBreaks, own, List.head?_append, isBreak]
      rfl
    rw [laid, List.head?_append, first] at starts
    cases lead with
    | nil => exact notBreak (Option.some.inj starts)
    | cons e lead => exact inLine (List.mem_cons.2 (.inl (Option.some.inj starts).symm))
  rw [← laid, cleaned, own]
  exact comes

theorem comesTo_cleaned_line {lead text : Text} (inLine : '\n' ∉ lead) {c d : Char}
    (first : (cleaned text).head? = some c) (notBreak : c ≠ '\n')
    (last : text.getLast? = some d) (solid : isBlank d = false) :
    ComesTo [lead ++ text] (lead ++ cleaned text) := by
  have nothing : List.all [] isIndent := rfl
  have comes := comesTo_cleaned inLine first notBreak last solid nothing
  rwa [List.append_nil] at comes

/-! ## What is read off a cleaned text -/

theorem isWordChar_of_isIndent {c : Char} (indents : isIndent c) : isWordChar c = false := by
  rw [isIndent, Bool.or_eq_true, decide_eq_true_eq, decide_eq_true_eq] at indents
  rcases indents with rfl | rfl <;> decide

theorem wordsFrom_trimLineEnds (word text : Text) :
    Text.wordsFrom word (trimLineEnds text) = Text.wordsFrom word text := by
  induction text generalizing word with
  | nil => rfl
  | cons c rest ih =>
      rw [trimLineEnds_cons]
      split
      · next dropped =>
          simp only [Bool.and_eq_true, Bool.or_eq_true, List.isEmpty_iff,
            decide_eq_true_eq] at dropped
          have noWord := isWordChar_of_isIndent dropped.1
          have own : Text.wordsFrom word (c :: rest) =
              (if word.isEmpty then [] else [word.reverse]) ++ Text.wordsFrom [] rest := by
            rw [Text.wordsFrom, noWord]
            cases word <;> rfl
          rw [own, ← ih]
          rcases dropped.2 with none | isBreak
          · rw [none]
            cases word <;> rfl
          · obtain ⟨more, same⟩ := List.head?_eq_some_iff.1 isBreak
            have noWordBreak : isWordChar '\n' = false := by decide
            rw [same, Text.wordsFrom, Text.wordsFrom, noWordBreak]
            cases word <;> rfl
      · rw [Text.wordsFrom, Text.wordsFrom]
        simp only [ih]

theorem wordsFrom_capBreaksFrom (breaks : Nat) (word text : Text)
    (ended : 2 ≤ breaks → word = []) :
    Text.wordsFrom word (capBreaksFrom breaks text) = Text.wordsFrom word text := by
  have noWord : isWordChar '\n' = false := by decide
  fun_induction capBreaksFrom breaks text generalizing word with
  | case1 => rfl
  | case2 breaks rest less ih =>
      rw [Text.wordsFrom, Text.wordsFrom, noWord, ih [] fun _ => rfl]
      rfl
  | case3 breaks rest more ih =>
      rw [ended (Nat.le_of_not_lt more), ih [] fun _ => rfl, Text.wordsFrom, noWord]
      rfl
  | case4 breaks c rest other ih =>
      have few : 2 ≤ 0 → ∀ word : Text, word = [] := fun none => absurd none (by decide)
      rw [Text.wordsFrom, Text.wordsFrom, ih _ (few · _), ih _ (few · _)]

/-- The clean-up keeps the words. -/
theorem words_cleaned (text : Text) : (cleaned text).words = text.words := by
  rw [Text.words, cleaned, capBreaks, wordsFrom_capBreaksFrom _ _ _ fun _ => rfl,
    wordsFrom_trimLineEnds]
  rfl

/-- The clean-up keeps the word that a text starts with. -/
theorem leadingWord_cleaned (text : Text) : (cleaned text).leadingWord = text.leadingWord := by
  have noWordBreak : isWordChar '\n' = false := by decide
  have capped (text : Text) :
      (capBreaksFrom 0 text).takeWhile isWordChar = text.takeWhile isWordChar := by
    induction text with
    | nil => rfl
    | cons c rest ih =>
        rw [capBreaksFrom]
        split
        · next isBreak => simp [isBreak, noWordBreak]
        · rw [List.takeWhile_cons, List.takeWhile_cons, ih]
  have trimmed (text : Text) :
      (trimLineEnds text).takeWhile isWordChar = text.takeWhile isWordChar := by
    induction text with
    | nil => rfl
    | cons c rest ih =>
        rw [trimLineEnds_cons]
        split
        · next dropped =>
            simp only [Bool.and_eq_true, Bool.or_eq_true, List.isEmpty_iff, decide_eq_true_eq]
              at dropped
            rw [List.takeWhile_cons_of_neg (by simp [isWordChar_of_isIndent dropped.1])]
            rcases dropped.2 with none | isBreak
            · rw [none]
              rfl
            · obtain ⟨more, same⟩ := List.head?_eq_some_iff.1 isBreak
              rw [same, List.takeWhile_cons_of_neg (by simp [noWordBreak])]
        · rw [List.takeWhile_cons, List.takeWhile_cons, ih]
  rw [Text.leadingWord, Text.leadingWord, cleaned, capBreaks, capped, trimmed]

/-- A cleaned text has the outline of the text. -/
theorem outline_cleaned (kind : Token.Kind) (text : Text) :
    Token.outline { kind, text := cleaned text } = Token.outline { kind, text } := by
  simp only [Token.outline, Token.headsEnum, Statement.mentionsEnum, Statement.isMember,
    words_cleaned, leadingWord_cleaned]

theorem solidLines_of_keeps {text other : Text} (keeps : Keeps text other) :
    Text.solidLines text = Text.solidLines other := by
  have solid (text : Text) : Text.solidLines text = (filledLines text).map Text.trim := by
    have same (line : Text) : line.trim.isEmpty = Text.isBlank line := by
      rw [Bool.eq_iff_iff, List.isEmpty_iff, Text.trim_eq_nil_iff]
      simp [Text.compact, Text.isBlank, List.filter_eq_nil_iff]
    rw [Text.solidLines, Text.keepSolid, filledLines, List.filter_map]
    simp only [Function.comp_def, same]
  rw [solid, solid]
  rw [Keeps] at keeps
  generalize filledLines text = lines at keeps ⊢
  generalize filledLines other = others at keeps ⊢
  induction keeps with
  | nil => rfl
  | cons shortened _ ih =>
      obtain ⟨blanks, blank, rfl⟩ := shortened
      have nothing : List.all [] isBlank := rfl
      rw [List.map_cons, List.map_cons, ih]
      congr 1
      exact Text.trim_between nothing blank _

theorem solidLines_cleaned (text : Text) : Text.solidLines (cleaned text) = Text.solidLines text :=
  (solidLines_of_keeps ((keepsAll_trimLineEnds text).keeps.trans
    (keeps_capBreaksFrom 0 _).1)).symm

end Clean

namespace Segment

open CodeUnit (Nesting)

/-- A segment as the clean-up leaves it. -/
def cleaned : Segment → Segment
  | .comment form text => .comment form (Clean.cleaned text)
  | segment => segment

variable {segments : List Segment} {segment : Segment} {next : Option Char}

/-- Whether a segment is closed and, if it keeps its line breaks when it is put back, as the
clean-up leaves it. -/
def isNeat : Segment → Bool
  | .comment .block text => Comment.closes (text.drop 2) && Clean.cleaned text = text
  | _ => true

theorem isClosed_of_isNeat (neat : segment.isNeat) : segment.isClosed := by
  match segment, neat with
  | .code _, _ => rfl
  | .literal _ _, _ => rfl
  | .comment .line _, _ => rfl
  | .comment .block _, neat => exact (Bool.and_eq_true_iff.1 neat).1

theorem Stems.all_isNeat {others : List Segment} (stems : Stems segments others)
    (neat : others.all isNeat) : segments.all isNeat := by
  rw [List.all_eq_true] at neat ⊢
  intro segment member
  match segment, member with
  | .code _, _ => rfl
  | .literal _ _, _ => rfl
  | .comment .line _, _ => rfl
  | .comment .block text, member =>
      obtain ⟨more, inside, whole⟩ := stems .block text member
      rw [whole rfl, List.append_nil] at inside
      exact neat _ inside

theorem break_not_mem_body {quote : Char} (quoted : isQuote quote) {escaped : Bool}
    {body repair : Text}
    (whole : Literal.scan quote escaped body = ⟨body, [], repair⟩) : '\n' ∉ body := by
  induction body generalizing escaped with
  | nil => simp
  | cons c body ih =>
      rcases Literal.scan_cons_whole quoted whole with ⟨-, isQuote, rfl, -⟩ | ⟨inLine, -, later⟩
      · rw [isQuote, List.mem_singleton]
        exact (Literal.quote_ne_break quoted).symm
      · rw [List.mem_cons, not_or]
        exact ⟨inLine.symm, ih later⟩

theorem Fits.break_not_mem_literal {text repair : Text} (fits : (literal text repair).Fits next) :
    '\n' ∉ text := by
  obtain ⟨quote, body, rfl, quoted, whole, -⟩ := fits
  rw [List.mem_cons, not_or]
  exact ⟨(Literal.quote_ne_break quoted).symm, break_not_mem_body quoted whole⟩

/-- A closed comment stays closed, and it fits wherever it did. -/
theorem Fits.cleaned (fits : segment.Fits next) (inline : segment.isInline) :
    segment.cleaned.Fits next ∧ segment.cleaned.isInline := by
  match segment, fits with
  | .code c, fits => exact ⟨fits, rfl⟩
  | .literal _ _, fits => exact ⟨fits, inline⟩
  | .comment .line _, _ => cases inline
  | .comment .block _, ⟨body, rfl, whole, _⟩ =>
      have slash : isBlank '/' = false := by decide
      have closed : Comment.closes body := by simpa [isInline, isComplete] using inline
      have opened : Clean.cleaned ('/' :: '*' :: body) = '/' :: '*' :: Clean.cleaned body := by
        rw [Clean.cleaned_cons_solid slash, Clean.cleaned_cons_solid (by decide)]
      have last := Clean.getLast?_cleaned (getLast?_of_closes whole closed) slash
      have isClosed := Comment.isClosedBody_congr ⟨whole, closed⟩ last
        (by rw [← opened, Clean.solidLines_cleaned])
      refine ⟨⟨_, opened, isClosed.1, .inl isClosed.2⟩, ?_⟩
      simpa [Segment.cleaned, isInline, isComplete, opened] using isClosed.2

/-- The text of a hidden segment is cleaned. -/
theorem Fits.text_cleaned (fits : segment.Fits next) (inline : segment.isInline)
    (notCode : ∀ c, segment ≠ .code c) : segment.cleaned.text = Clean.cleaned segment.text := by
  match segment, fits with
  | .code c, _ => exact absurd rfl (notCode c)
  | .comment _ _, _ => rfl
  | .literal text repair, fits =>
      obtain ⟨-, init, c, ended, solid⟩ := fits.solid inline notCode
      have kept : Text.trimEnd text = text := by
        rw [show text = init ++ [c] from ended, trimEnd_concat, if_neg (by simp [solid])]
      exact (Clean.cleaned_of_line fits.break_not_mem_literal kept).symm

/-- A neat comment is clean in block form. -/
theorem Fits.cleaned_inlined (fits : segment.Fits next) (neat : segment.isNeat) :
    segment.inlined.cleaned = segment.inlined := by
  match segment, fits with
  | .code _, _ => rfl
  | .literal _ _, _ => rfl
  | .comment .line _, ⟨body, rfl, inLine, _⟩ =>
      have noBreak : '\n' ∉ Comment.blockForm .line ('/' :: '/' :: body) :=
        not_mem_blockForm (by decide) (by simp [inLine]) .line
      obtain ⟨inner, same, whole, closed⟩ := Comment.exists_blockForm_line ('/' :: '/' :: body)
      obtain ⟨init, rfl⟩ := List.getLast?_eq_some_iff.1 (getLast?_of_closes whole closed)
      have kept : Text.trimEnd ('/' :: '*' :: init ++ ['/']) = '/' :: '*' :: init ++ ['/'] := by
        rw [trimEnd_concat, if_neg (by decide)]
      rw [same] at noBreak
      rw [Segment.inlined, same]
      exact congrArg _ (Clean.cleaned_of_line noBreak kept)
  | .comment .block _, _ =>
      exact congrArg _ (of_decide_eq_true (Bool.and_eq_true_iff.1 neat).2)

/-- Neat comments are clean when they are put back. -/
theorem map_cleaned_weave (lexed : Lexed segments) (neat : segments.all isNeat) (text : Text) :
    (weave (hiddenSegments segments) text).map cleaned = weave (hiddenSegments segments) text := by
  refine (List.map_congr_left fun segment member => ?_).trans (List.map_id _)
  rcases mem_weave member with inHidden | ⟨c, -, rfl⟩
  · obtain ⟨source, inside, -, rfl⟩ := exists_of_mem_hiddenSegments inHidden
    obtain ⟨next, fits⟩ := lexed.exists_fits source inside
    exact fits.cleaned_inlined (List.all_eq_true.1 neat source inside)
  · rfl

theorem Fits.head?_cleaned (fits : segment.Fits next) :
    segment.cleaned.text.head? = segment.text.head? := by
  have slash : isBlank '/' = false := by decide
  match segment, fits with
  | .code _, _ => rfl
  | .literal _ _, _ => rfl
  | .comment .line _, ⟨body, rfl, _⟩ =>
      rw [Segment.cleaned, text, Clean.cleaned_cons_solid slash]
      rfl
  | .comment .block _, ⟨body, rfl, _⟩ =>
      rw [Segment.cleaned, text, Clean.cleaned_cons_solid slash]
      rfl

theorem head?_spell_map_cleaned (fits : ∀ segment ∈ segments, ∃ next, segment.Fits next) :
    (spell (segments.map cleaned)).head? = (spell segments).head? := by
  cases segments with
  | nil => rfl
  | cons segment rest =>
      obtain ⟨next, own⟩ := fits segment List.mem_cons_self
      have same := own.head?_cleaned
      have filled : segment.cleaned.text ≠ [] := fun empty => by
        rw [empty, eq_comm, List.head?_nil, List.head?_eq_none_iff] at same
        exact own.text_ne_nil same
      rw [List.map_cons, spell_cons, spell_cons, List.head?_append_of_ne_nil _ filled,
        List.head?_append_of_ne_nil _ own.text_ne_nil, same]

theorem lexed_map_cleaned (lexed : Lexed segments) (inline : segments.all isInline) :
    Lexed (segments.map cleaned) := by
  induction segments with
  | nil => trivial
  | cons segment rest ih =>
      rw [List.all_cons, Bool.and_eq_true] at inline
      refine ⟨?_, ih lexed.2 inline.2⟩
      rw [head?_spell_map_cleaned lexed.2.exists_fits]
      exact (lexed.1.cleaned inline.1).1

theorem head?_spell_ne_break (fits : ∀ segment ∈ segments, ∃ next, segment.Fits next)
    (inline : segments.all isInline) (inLine : '\n' ∉ skeleton segments) :
    (spell segments).head? ≠ some '\n' := by
  cases segments with
  | nil => simp
  | cons segment rest =>
      rw [List.all_cons, Bool.and_eq_true] at inline
      obtain ⟨next, own⟩ := fits segment List.mem_cons_self
      rw [spell_cons, List.head?_append_of_ne_nil _ own.text_ne_nil]
      by_cases isCode : ∃ c, segment = .code c
      · obtain ⟨c, rfl⟩ := isCode
        rintro first
        obtain rfl := Option.some.inj first
        exact inLine List.mem_cons_self
      · obtain ⟨⟨c, more, same, solid⟩, -⟩ := own.solid inline.1 (not_exists.1 isCode)
        rw [same]
        exact fun first => ne_break_of_isBlank solid (Option.some.inj first)

/-- The clean-up works on the comments of segments one by one, if their code stands on one line and
ends in no blank. -/
theorem cleaned_spell (fits : ∀ segment ∈ segments, ∃ next, segment.Fits next)
    (inline : segments.all isInline) (inLine : '\n' ∉ skeleton segments)
    (ended : ∀ c, (skeleton segments).getLast? = some c → isBlank c = false) :
    Clean.cleaned (spell segments) = spell (segments.map cleaned) := by
  induction segments with
  | nil => rfl
  | cons segment rest ih =>
      rw [List.all_cons, Bool.and_eq_true] at inline
      obtain ⟨next, own⟩ := fits segment List.mem_cons_self
      obtain ⟨c, same, -, shown⟩ := exists_skeleton_cons segment
      rw [same, List.mem_cons, not_or] at inLine
      rw [same] at ended
      have fitsRest : ∀ other ∈ rest, ∃ next, other.Fits next := fun other member =>
        fits other (List.mem_cons_of_mem _ member)
      have later := ih fitsRest inline.2 inLine.2 fun d last =>
        ended d (by rw [List.getLast?_cons, last]; rfl)
      rw [List.map_cons, spell_cons, spell_cons, ← later]
      by_cases isCode : ∃ d, segment = .code d
      · obtain ⟨d, rfl⟩ := isCode
        obtain rfl : c = d := (List.cons.inj (same [])).1.symm
        cases start : (spell rest).head? with
        | none =>
            have last : rest = [] := List.eq_nil_iff_forall_not_mem.2 fun other member => by
              obtain ⟨next, fitsOther⟩ := fitsRest other member
              exact fitsOther.text_ne_nil
                (List.flatMap_eq_nil_iff.1 (List.head?_eq_none_iff.1 start) other member)
            rw [last] at ended ⊢
            exact Clean.cleaned_cons_solid (ended c rfl) []
        | some e =>
            have first : (Clean.cleaned (spell rest)).head? = some e := by
              rw [later, head?_spell_map_cleaned fitsRest, start]
            have notBreak : e ≠ '\n' := by
              rintro rfl
              exact head?_spell_ne_break fitsRest inline.2 inLine.2 start
            exact Clean.cleaned_cons (Ne.symm inLine.1) first notBreak
      · have notCode : ∀ d, segment ≠ .code d := not_exists.1 isCode
        obtain ⟨-, init, d, ends, solid⟩ := own.solid inline.1 notCode
        rw [own.text_cleaned inline.1 notCode, ends, List.append_assoc, List.singleton_append,
          Clean.cleaned_append_cons init solid]

/-- What the clean-up makes of a text is read as the text is, with each comment cleaned. -/
theorem split_cleaned {text : Text} (inline : (split text).all isInline)
    (inLine : '\n' ∉ skeleton (split text))
    (ended : ∀ c, (skeleton (split text)).getLast? = some c → isBlank c = false) :
    split (Clean.cleaned text) = (split text).map cleaned := by
  have lexed := lexed_split text
  have whole := cleaned_spell lexed.exists_fits inline inLine ended
  rw [spell_split] at whole
  rw [whole, split_spell (lexed_map_cleaned lexed inline)]

/-! ## What is read off a unit -/

theorem isInline_map_cleaned (fits : ∀ segment ∈ segments, ∃ next, segment.Fits next)
    (inline : segments.all isInline) : (segments.map cleaned).all isInline := by
  rw [List.all_eq_true] at inline ⊢
  intro segment member
  obtain ⟨source, inside, rfl⟩ := List.mem_map.1 member
  obtain ⟨next, own⟩ := fits source inside
  exact (own.cleaned (inline source inside)).2

theorem skeleton_map_cleaned (segments : List Segment) :
    skeleton (segments.map cleaned) = skeleton segments := by
  rw [skeleton, skeleton, List.map_map]
  refine List.map_congr_left fun segment _ => ?_
  cases segment <;> rfl

theorem length_hidden_map_cleaned (segments : List Segment) :
    (hidden (segments.map cleaned)).length = (hidden segments).length := by
  induction segments with
  | nil => rfl
  | cons segment rest ih =>
      rw [hidden, hidden] at ih
      cases segment with
      | code c => exact ih
      | literal text repair => exact congrArg (· + 1) ih
      | comment form text => exact congrArg (· + 1) ih

theorem passes?_map_cleaned (nesting : Nesting) (segments : List Segment) :
    nesting.passes? (segments.map cleaned) = nesting.passes? segments := by
  induction segments generalizing nesting with
  | nil => rfl
  | cons segment segments ih =>
      have same : nesting.pass? segment.cleaned = nesting.pass? segment := by cases segment <;> rfl
      rw [List.map_cons, Nesting.passes?_cons, Nesting.passes?_cons, same]
      simp only [ih]

theorem QuietFrom.map_cleaned {depth : Nat} (quiet : QuietFrom depth segments) :
    QuietFrom depth (segments.map cleaned) := by
  induction segments generalizing depth with
  | nil => trivial
  | cons segment rest ih =>
      cases segment with
      | code c => exact ih quiet
      | literal text repair => exact ih quiet
      | comment form text =>
          refine ⟨fun isOpen => List.all_eq_true.2 fun c member => ?_, ih quiet.2⟩
          exact List.all_eq_true.1 (quiet.1 isOpen) c ((Clean.cleaned_sublist text).subset member)

end Segment

end IdlFormat
