import IdlFormat.Proofs.ReturningUnit

/-!
# Texts respaced in parts

Spacing does not reach over a comma or a semicolon, so its two sides are respaced apart from each
other. `Statement.tidy` is respacing for every text at once: the canonical spacing of its code, with
its literals and comments put back. The texts of this file are plain: their literals are closed and
their comments are closed blocks, so they can be joined without a change to what each of them holds.
-/

namespace IdlFormat

namespace Bead

/-- A separator ends the word before it. -/
theorem keywordGaps_append_separator (word : Text) (left : List Bead) {separator : Bead}
    (noWord : isWordChar separator.char = false) (notOpen : separator.char ≠ '(')
    (right : List Bead) :
    keywordGaps word (left ++ separator :: right) =
      keywordGaps word left ++ separator :: keywordGaps [] right := by
  induction left generalizing word with
  | nil => simp [keywordGaps, noWord, notOpen]
  | cons bead left ih => rw [List.cons_append, keywordGaps, keywordGaps, ih, List.cons_append]

/-- The first gap is the only difference that a separator in front makes. -/
theorem unlead_keywordGaps_regap (before other : Option Char) (beads : List Bead) :
    unlead (keywordGaps [] (regap inStatement before beads)) =
      unlead (keywordGaps [] (regap inStatement other beads)) := by
  cases beads with
  | nil => rfl
  | cons bead beads => simp [regap, keywordGaps, unlead]

theorem all_isBlank_trail (blank : Bool) : (trail blank).all isBlank := by
  cases blank <;> decide

theorem exists_spell_eq (beads : List Bead) :
    ∃ blank, spell beads = trail blank ++ spell (unlead beads) := by
  cases beads with
  | nil => exact ⟨false, rfl⟩
  | cons bead beads => exact ⟨bead.gap, rfl⟩

end Bead

namespace Statement

open Bead (trail)

/-- Whether a character ends a member or a statement. -/
def isSeparator (c : Char) : Bool :=
  c = ',' || c = ';'

theorem isSeparator_iff {c : Char} : isSeparator c ↔ c = ',' ∨ c = ';' := by
  simp [isSeparator]

/-- Spacing does not reach over a separator. -/
theorem respace_append_separator {separator : Char} (separates : isSeparator separator)
    (left right : Text) :
    ∃ before behind, respace (left ++ separator :: right) =
      respace left ++ trail before ++ separator :: (trail behind ++ respace right) := by
  obtain ⟨solid, noWord, notOpen⟩ : isBlank separator = false ∧ isWordChar separator = false ∧
      separator ≠ '(' := by
    rcases isSeparator_iff.1 separates with rfl | rfl <;> decide
  obtain ⟨own, parts⟩ := Bead.exists_ofText_concat solid false left
  obtain ⟨behind, spelled⟩ := Bead.exists_spell_eq
    (Bead.keywordGaps [] (Bead.regap Bead.inStatement (some separator) (Bead.ofText false right)))
  rw [Bead.unlead_keywordGaps_regap (some separator) none] at spelled
  simp only [respace_eq, Bead.statementGaps]
  rw [Bead.ofText_append_solid solid, parts, List.append_assoc, Bead.regap_append,
    List.singleton_append, Bead.regap, Bead.keywordGaps_append_separator _ _ noWord notOpen]
  cases left : Bead.ofText false left with
  | nil =>
      refine ⟨false, behind, ?_⟩
      rw [Bead.regap, Bead.keywordGaps, List.nil_append]
      exact congrArg (separator :: ·) spelled
  | cons bead beads =>
      refine ⟨Bead.inStatement (Bead.final none (bead :: beads)) own separator, behind, ?_⟩
      rw [Bead.unlead_append (by simp [Bead.regap, Bead.keywordGaps]), Bead.spell_append,
        Bead.spell_cons, spelled, List.append_assoc]

end Statement

/-- A character that stands behind the same code in two parts of a text stands in one place. -/
theorem Text.append_cons_inj_of_compact {c : Char}
    (solid : IdlFormat.isBlank c = false) {left other right more : Text}
    (same : left ++ c :: right = other ++ c :: more) (sameCode : left.compact = other.compact) :
    left = other ∧ right = more := by
  have noLonger {left other tail : Text} (longer : other = left ++ c :: tail)
      (sameCode : left.compact = other.compact) : False := by
    rw [longer, Text.compact_append, Text.compact_cons, solid] at sameCode
    simp at sameCode
  rcases List.append_eq_append_iff.1 same with ⟨tail, rfl, rest⟩ | ⟨tail, rfl, rest⟩
  · cases tail with
    | nil =>
        rw [List.append_nil]
        exact ⟨rfl, (List.cons.inj rest).2⟩
    | cons d tail =>
        obtain ⟨rfl, -⟩ := List.cons.inj rest
        exact (noLonger rfl sameCode).elim
  · cases tail with
    | nil =>
        rw [List.append_nil]
        exact ⟨rfl, (List.cons.inj rest).2.symm⟩
    | cons d tail =>
        obtain ⟨rfl, -⟩ := List.cons.inj rest
        exact (noLonger rfl sameCode.symm).elim

namespace Mask

theorem compact_insert (hidden : List Text) (text : Text) :
    (insert hidden text).compact = insert (hidden.map Text.compact) text.compact := by
  have solid : isBlank mark = false := by decide
  induction text generalizing hidden with
  | nil => rfl
  | cons c text ih =>
      rw [insert, Text.compact_cons]
      split
      · next marked =>
          rw [marked, solid, if_neg (by simp), insert, if_pos rfl, Text.compact_append, ih]
          cases hidden with
          | nil => rfl
          | cons own others => rfl
      · next shown =>
          rw [Text.compact_cons, ih]
          split
          · rfl
          · rw [insert, if_neg shown]

theorem insert_append {hidden : List Text} {text : Text} (known : text.count mark = hidden.length)
    (others : List Text) (more : Text) :
    insert (hidden ++ others) (text ++ more) = insert hidden text ++ insert others more := by
  induction text generalizing hidden with
  | nil =>
      obtain rfl := List.length_eq_zero_iff.1 known.symm
      rfl
  | cons c text ih =>
      rw [List.cons_append, insert, insert]
      split
      · next marked =>
          cases hidden with
          | nil => simp [marked] at known
          | cons own hidden =>
              rw [marked, List.count_cons_self, List.length_cons, Nat.add_right_cancel_iff] at known
              rw [List.cons_append, List.tail_cons, List.tail_cons, ih known, List.append_assoc]
              rfl
      · next shown =>
          rw [List.count_cons_of_ne shown] at known
          rw [ih known, List.cons_append]

theorem insert_gap_append {gap : Text} (noMark : mark ∉ gap) (hidden : List Text) (text : Text) :
    insert hidden (gap ++ text) = gap ++ insert hidden text := by
  have none : gap.count mark = ([] : List Text).length := List.count_eq_zero.2 noMark
  have parts := insert_append none hidden text
  rwa [List.nil_append, insert_of_noMark noMark] at parts

end Mask

namespace Segment

open IdlFormat.Mask (mark)

/-- Whether a character neither belongs to a literal or comment nor makes one of its neighbours. -/
def isIdle (c : Char) : Bool :=
  !(['"', '\'', '/', '*', mark].contains c)

/-- A text whose literals are closed, whose comments are closed blocks, and which has no marks. -/
structure Plain (text : Text) : Prop where
  /-- Its placeholders are not mistaken. -/
  noMark : mark ∉ text
  /-- Nothing can be told of its segments but what stands in them. -/
  plain : ∀ segment ∈ split text, segment.IsPlain

variable {text left right gap : Text} {c : Char}

theorem isIdle_iff : isIdle c ↔ c ≠ '"' ∧ c ≠ '\'' ∧ c ≠ '/' ∧ c ≠ '*' ∧ c ≠ mark := by
  simp [isIdle]

theorem isIdle_of_isBlank (blank : isBlank c) : isIdle c :=
  isIdle_iff.2 ⟨ne_of_isBlank blank (by decide), ne_of_isBlank blank (by decide),
    ne_of_isBlank blank (by decide), ne_of_isBlank blank (by decide),
    ne_of_isBlank blank (by decide)⟩

theorem all_isIdle_of_isBlank (blank : gap.all isBlank) : gap.all isIdle :=
  List.all_eq_true.2 fun c member => isIdle_of_isBlank (List.all_eq_true.1 blank c member)

/-- Idle characters in front of a text are segments of their own. -/
theorem split_idle_append (idle : gap.all isIdle) (text : Text) :
    split (gap ++ text) = gap.map .code ++ split text := by
  induction gap with
  | nil => rfl
  | cons c gap ih =>
      rw [List.all_cons, Bool.and_eq_true] at idle
      obtain ⟨double, single, slash, -⟩ := isIdle_iff.1 idle.1
      rw [List.cons_append, split_of_code, ih idle.2, List.map_cons, List.cons_append]
      · rw [Comment.form?_cons_eq_none_iff, Comment.opens]
        simp [slash]
      · simp [isQuote, double, single]

namespace Plain

/-- A plain text and a text behind idle characters have segments of their own. -/
theorem split_append (plain : Plain left) (idle : gap.all isIdle) (filled : gap ≠ []) (right : Text) :
    split (left ++ (gap ++ right)) = split left ++ (gap.map .code ++ split right) := by
  have lexed : Lexed (split left ++ (gap.map .code ++ split right)) := by
    have more := lexed_split (gap ++ right)
    rw [split_idle_append idle] at more
    refine (lexed_split left).append more fun segment member => ?_
    obtain ⟨c, gap, rfl⟩ := List.exists_cons_of_ne_nil filled
    rw [List.all_cons, Bool.and_eq_true] at idle
    obtain ⟨-, -, slash, star, -⟩ := isIdle_iff.1 idle.1
    exact (plain.plain segment member).fits slash star
  have read := split_spell lexed
  rwa [spell_append, spell_append, spell_split, spell_split, spell_map_code] at read

theorem split_append_idle (plain : Plain text) (idle : gap.all isIdle) :
    split (text ++ gap) = split text ++ gap.map .code := by
  cases gap with
  | nil => rw [List.append_nil, List.map_nil, List.append_nil]
  | cons c gap =>
      have parts := plain.split_append idle (List.cons_ne_nil c gap) []
      rwa [List.append_nil, split_nil, List.append_nil] at parts

theorem nil : Plain [] where
  noMark := by simp
  plain := by simp [split_nil]

theorem append (plain : Plain left) (idle : gap.all isIdle) (filled : gap ≠ []) (more : Plain right) :
    Plain (left ++ (gap ++ right)) where
  noMark := by
    rw [List.mem_append, List.mem_append, not_or, not_or]
    refine ⟨plain.noMark, fun member => ?_, more.noMark⟩
    exact absurd rfl (isIdle_iff.1 (List.all_eq_true.1 idle _ member)).2.2.2.2
  plain := by
    rw [plain.split_append idle filled]
    intro segment member
    rcases List.mem_append.1 member with inLeft | rest
    · exact plain.plain segment inLeft
    · rcases List.mem_append.1 rest with inGap | inRight
      · obtain ⟨c, inside, rfl⟩ := List.mem_map.1 inGap
        obtain ⟨double, single, -⟩ := isIdle_iff.1 (List.all_eq_true.1 idle c inside)
        simp [IsPlain, isQuote, double, single]
      · exact more.plain segment inRight

theorem append_idle (plain : Plain text) (idle : gap.all isIdle) : Plain (text ++ gap) := by
  cases gap with
  | nil => rwa [List.append_nil]
  | cons c gap =>
      have more := plain.append idle (List.cons_ne_nil c gap) nil
      rwa [List.append_nil] at more

/-- The two sides of a place where the segments of a plain text are cut are plain. -/
theorem of_split {before after : List Segment} (plain : Plain text)
    (parts : split text = before ++ after) :
    (Plain (spell before) ∧ split (spell before) = before) ∧
      Plain (spell after) ∧ split (spell after) = after := by
  have whole : text = spell before ++ spell after := by
    rw [← spell_append, ← parts, spell_split]
  have noMark := plain.noMark
  rw [whole, List.mem_append, not_or] at noMark
  have lexed := lexed_split text
  rw [parts] at lexed
  have first := split_spell lexed.left
  have second := split_spell lexed.right
  have inside := plain.plain
  rw [parts] at inside
  refine ⟨⟨⟨noMark.1, ?_⟩, first⟩, ⟨noMark.2, ?_⟩, second⟩
  · rw [first]
    exact fun segment member => inside segment (List.mem_append_left _ member)
  · rw [second]
    exact fun segment member => inside segment (List.mem_append_right _ member)

/-- A character of code at the end of a plain text is its last segment. -/
theorem exists_split_concat (plain : Plain text) {last : Char} (ends : text.getLast? = some last)
    (unquoted : isQuote last = false) (notSlash : last ≠ '/') :
    ∃ body, split text = body ++ [code last] := by
  have spelled := spell_split text
  rcases List.eq_nil_or_concat (split text) with none | ⟨body, segment, parts⟩
  · rw [none] at spelled
    rw [← spelled] at ends
    cases ends
  · rw [List.concat_eq_append] at parts
    rw [parts, spell_append, spell_cons, spell_nil, List.append_nil] at spelled
    have own := plain.plain segment (by rw [parts]; simp)
    by_cases isCode : ∃ c, segment = .code c
    · obtain ⟨c, rfl⟩ := isCode
      rw [← spelled, show (Segment.code c).text = [c] from rfl, List.getLast?_concat] at ends
      rw [Option.some.inj ends] at parts
      exact ⟨body, parts⟩
    · have notCode := not_exists.1 isCode
      obtain ⟨inline, fits⟩ := own.settled notCode
      obtain ⟨init, c, same, quote⟩ := (fits none).getLast?_hidden inline notCode
      rw [← spelled, same, ← List.append_assoc, List.getLast?_concat] at ends
      rw [Option.some.inj ends, unquoted] at quote
      exact absurd quote (by simp [notSlash])

theorem shown (plain : Plain text) : ∀ c, .code c ∈ split text → c ≠ mark :=
  fun _ => Mask.code_ne_mark plain.noMark

theorem all_isInline (plain : Plain text) : (split text).all isInline := by
  rw [List.all_eq_true]
  intro segment member
  cases segment with
  | code c => rfl
  | literal quoted repair => exact (plain.plain _ member).1
  | comment form own => exact (plain.plain _ member).1

theorem settled (plain : Plain text) : Settled (hiddenSegments (split text)) :=
  settled_of_isComplete (lexed_split text) <| List.all_eq_true.2 fun segment member =>
    isComplete_of_isInline (List.all_eq_true.1 plain.all_isInline segment member)

theorem count_mark (plain : Plain text) :
    (skeleton (split text)).count mark = (hidden (split text)).length :=
  Mask.count_skeleton plain.shown

end Plain

end Segment

namespace Statement

open Bead (trail)
open Segment (hidden skeleton Plain)

variable {text left right gap : Text}

/-- The sides of a separator are respaced apart from each other. -/
theorem tidy_append_separator {separator : Char} (separates : isSeparator separator)
    (plain : Plain left) (right : Text) :
    ∃ before behind, tidy (left ++ separator :: right) =
      tidy left ++ trail before ++ separator :: (trail behind ++ tidy right) := by
  have idle : List.all [separator] Segment.isIdle := by
    rcases isSeparator_iff.1 separates with rfl | rfl <;> decide
  have parts := plain.split_append idle (by simp) right
  rw [List.singleton_append] at parts
  obtain ⟨before, behind, spaced⟩ :=
    respace_append_separator separates (skeleton (Segment.split left))
      (skeleton (Segment.split right))
  refine ⟨before, behind, ?_⟩
  have known := (count_mark_respace (skeleton (Segment.split left))).trans plain.count_mark
  have noMark : Mask.mark ∉ trail before ++ separator :: trail behind := by
    rcases isSeparator_iff.1 separates with rfl | rfl <;> cases before <;> cases behind <;> decide
  have spread :
      trail before ++ separator :: (trail behind ++ respace (skeleton (Segment.split right))) =
        (trail before ++ separator :: trail behind) ++
          respace (skeleton (Segment.split right)) := by simp
  have code : hidden (List.map Segment.code [separator] ++ Segment.split right) =
      hidden (Segment.split right) := rfl
  rw [tidy, parts, Segment.hidden_append, code, Segment.skeleton_append, Segment.skeleton_append,
    Segment.skeleton_map_code, List.singleton_append, spaced, List.append_assoc,
    Mask.insert_append known, spread, Mask.insert_gap_append noMark, tidy, tidy]
  simp

theorem respace_blank_append (blank : gap.all isBlank) (text : Text) :
    respace (gap ++ text) = respace text := by
  have trimmed : Text.trimStart (gap ++ text) = text.trimStart := Text.trimStart_append blank text
  rw [respace_eq, respace_eq, ← Bead.statementGaps_unlead, ← Bead.unlead_ofText_trimStart false,
    trimmed, Bead.unlead_ofText_trimStart false false, Bead.statementGaps_unlead]

theorem tidy_blank_append (blank : gap.all isBlank) (text : Text) :
    tidy (gap ++ text) = tidy text := by
  have parts := Segment.split_idle_append (Segment.all_isIdle_of_isBlank blank) text
  rw [tidy, parts, Segment.hidden_append, Segment.hidden_map_code, Segment.skeleton_append,
    Segment.skeleton_map_code, respace_blank_append blank]
  rfl

theorem tidy_append_blank (plain : Plain text) (blank : gap.all isBlank) :
    tidy (text ++ gap) = tidy text := by
  have parts := plain.split_append_idle (Segment.all_isIdle_of_isBlank blank)
  rw [tidy, parts, Segment.hidden_append, Segment.hidden_map_code, List.append_nil,
    Segment.skeleton_append, Segment.skeleton_map_code, respace_append_blank _ blank]
  rfl

/-- Open literals are closed, and line comments become blocks. -/
theorem plain_tidy (noMark : Mask.mark ∉ text)
    (closed : (Segment.split text).all Segment.isClosed) : Plain (tidy text) where
  noMark := respacing.mark_not_mem_insert noMark
  plain := by
    have lexed := Segment.lexed_split text
    rw [tidy, respacing.split_insert lexed fun _ => Mask.code_ne_mark noMark]
    intro segment member
    rcases Segment.mem_weave member with inHidden | ⟨c, inCode, rfl⟩
    · exact (Segment.settled_hiddenSegments lexed closed).isPlain inHidden
    · exact Segment.isQuote_of_mem_respaced compact_respace lexed c inCode

theorem plain_tidy_of_plain (plain : Plain text) : Plain (tidy text) := by
  refine plain_tidy plain.noMark (List.all_eq_true.2 fun segment member => ?_)
  exact Segment.isClosed_of_isComplete
    (Segment.isComplete_of_isInline (List.all_eq_true.1 plain.all_isInline segment member))

/-- Only blanks change. -/
theorem compact_tidy (plain : Plain text) : (tidy text).compact = text.compact := by
  conv => rhs; rw [← Mask.insert_eq_self plain.noMark plain.all_isInline]
  rw [tidy, Mask.compact_insert, Mask.compact_insert, compact_respace]

theorem trim_tidy (plain : Plain text) : (tidy text).trim = tidy text := by
  have solid := plain.settled.solid
  rw [← Segment.hidden_eq_map_text] at solid
  rw [tidy, Mask.trim_insert solid, (canonical_respace _).trimmed]

/-- A plain text that is respaced to itself. -/
structure IsSpaced (text : Text) : Prop where
  /-- Its literals and comments are closed. -/
  plain : Plain text
  /-- Respacing leaves it alone. -/
  stable : tidy text = text

namespace IsSpaced

theorem trim_eq (isSpaced : IsSpaced text) : text.trim = text := by
  rw [← isSpaced.stable]
  exact trim_tidy isSpaced.plain

theorem solid (isSpaced : IsSpaced text) (filled : text ≠ []) : Mask.Solid text := by
  have kept := isSpaced.trim_eq
  have ended : Text.trimEnd text = text := by
    rw [← kept, Text.trim, Text.trimEnd_trimEnd]
  obtain ⟨front, d, same, solid⟩ := Text.exists_concat_of_trimEnd filled ended
  obtain ⟨c, rest, rfl⟩ := List.exists_cons_of_ne_nil filled
  refine ⟨⟨c, rest, rfl, ?_⟩, front, d, same, solid⟩
  cases blank : isBlank c with
  | false => rfl
  | true =>
      -- a blank at the start would be dropped
      have shorter := (Text.trimEnd_sublist (Text.trimStart (c :: rest))).length_le
      rw [← Text.trim, kept, Text.trimStart, List.dropWhile_cons_of_pos blank] at shorter
      have less := (List.dropWhile_sublist isBlank (l := rest)).length_le
      simp only [List.length_cons] at shorter
      omega

theorem trim_append_trail (isSpaced : IsSpaced text) (blank : Bool) :
    Text.trim (text ++ trail blank) = text := by
  have nothing : List.all [] isBlank := rfl
  have between := Text.trim_between nothing (Bead.all_isBlank_trail blank) text
  rwa [List.nil_append, isSpaced.trim_eq] at between

/-- A tidy text is tidy on both sides of a separator, up to the blanks around it. -/
theorem exists_of_split {separator : Char} (separates : isSeparator separator)
    (isSpaced : IsSpaced text)
    {part rest : List Segment} (parts : Segment.split text = part ++ .code separator :: rest) :
    ∃ left right before behind,
      text = left ++ (trail before ++ separator :: (trail behind ++ right)) ∧
      IsSpaced left ∧ IsSpaced right ∧ part = Segment.split left ++ (trail before).map .code ∧
      rest = (trail behind).map .code ++ Segment.split right := by
  have solid : isBlank separator = false := by
    rcases isSeparator_iff.1 separates with rfl | rfl <;> decide
  have whole : Segment.split text = (part ++ [Segment.code separator]) ++ rest := by rw [parts]; simp
  obtain ⟨⟨plainPart, samePart⟩, -⟩ := isSpaced.plain.of_split parts
  obtain ⟨-, plainRest, sameRest⟩ := isSpaced.plain.of_split whole
  have spelled : text = Segment.spell part ++ separator :: Segment.spell rest := by
    rw [← Segment.spell_split text, parts, Segment.spell_append]
    rfl
  obtain ⟨before, behind, spread⟩ := tidy_append_separator separates plainPart (Segment.spell rest)
  rw [← spelled, isSpaced.stable] at spread
  have sameCode : (tidy (Segment.spell part) ++ trail before).compact =
    (Segment.spell part).compact := by
    have blank : (trail before).compact = [] := by cases before <;> rfl
    rw [Text.compact_append, compact_tidy plainPart, blank, List.append_nil]
  obtain ⟨first, second⟩ :=
    Text.append_cons_inj_of_compact solid (spread.symm.trans spelled) sameCode
  have plainLeft := plain_tidy_of_plain plainPart
  have plainRight := plain_tidy_of_plain plainRest
  refine ⟨_, _, before, behind, ?_, ⟨plainLeft, ?_⟩, ⟨plainRight, ?_⟩, ?_, ?_⟩
  · rw [← List.append_assoc]
    exact spread
  · conv => rhs; rw [← first, tidy_append_blank plainLeft (Bead.all_isBlank_trail before)]
  · conv => rhs; rw [← second, tidy_blank_append (Bead.all_isBlank_trail behind)]
  · rw [← plainLeft.split_append_idle (Segment.all_isIdle_of_isBlank (Bead.all_isBlank_trail before)),
      first, samePart]
  · rw [← Segment.split_idle_append (Segment.all_isIdle_of_isBlank (Bead.all_isBlank_trail behind)),
      second, sameRest]

end IsSpaced

end Statement

end IdlFormat
