import IdlFormat.Proofs.Reading
import Mathlib.Data.List.Forall2
import Mathlib.Data.List.Infix

/-!
# Clean documents

The four passes of the final clean-up run one after the other, and none spoils what an earlier one
has done. `IsClean` describes the texts that they leave: `finalize` gives a clean text, and it leaves
exactly the clean texts alone.

The clean-up does not touch what the lines say: `Keeps` relates the lines of two texts that are not
blank, in order and up to the blanks at their ends, and every pass keeps the lines in this sense.
-/

namespace IdlFormat

namespace Text

theorem trimEnd_prefix (text : Text) : text.trimEnd <+: text := by
  induction text with
  | nil => exact List.prefix_refl _
  | cons c rest ih =>
      rw [trimEnd_cons]
      split
      · exact List.nil_prefix
      · exact List.cons_prefix_cons.2 ⟨rfl, ih⟩

/-- A trimmed text ends in a character that is not blank. -/
theorem isBlank_getLast_trimEnd {text : Text} {c : Char} (last : text.trimEnd.getLast? = some c) :
    IdlFormat.isBlank c = false := by
  induction text with
  | nil => simp [trimEnd, dropEndWhile] at last
  | cons d rest ih =>
      rw [trimEnd_cons] at last
      split at last
      · simp at last
      · next kept =>
          rw [List.getLast?_cons] at last
          cases inner : (trimEnd rest).getLast? with
          | none =>
              rw [List.getLast?_eq_none_iff] at inner
              obtain rfl : d = c := by simpa [inner] using last
              simpa [inner] using kept
          | some e =>
              rw [inner] at last
              exact ih (inner.trans last)

/-- A trimmed text starts with a character that is not blank. -/
theorem takeWhile_trim (text : Text) : text.trim.takeWhile IdlFormat.isBlank = [] := by
  cases shape : text.trim with
  | nil => rfl
  | cons c rest =>
      have start := trimEnd_prefix text.trimStart
      rw [← trim, shape] at start
      rcases start with ⟨blanks, whole⟩
      have solid := List.head?_dropWhile_not IdlFormat.isBlank text
      rw [← trimStart, ← whole] at solid
      exact List.takeWhile_cons_of_neg (by simpa using solid)

/-- A text without a character stands on one side of that character. -/
theorem infix_append_cons_iff {word left right : Text} {c : Char} (absent : c ∉ word) :
    word <:+: left ++ c :: right ↔ word <:+: left ∨ word <:+: right := by
  constructor
  · rintro ⟨before, after, whole⟩
    rw [List.append_assoc] at whole
    rcases List.append_eq_append_iff.1 whole with ⟨more, rfl, rest⟩ | ⟨more, rfl, rest⟩
    · rcases List.append_eq_append_iff.1 rest with ⟨inner, rfl, -⟩ | ⟨inner, rfl, tail⟩
      · exact .inl ⟨before, inner, by simp⟩
      · cases inner with
        | nil => exact .inl ⟨before, [], by simp⟩
        | cons d inner =>
            obtain rfl := (List.cons.inj tail).1
            simp at absent
    · cases more with
      | nil =>
          cases word with
          | nil => exact .inr List.nil_infix
          | cons d word =>
              obtain rfl := (List.cons.inj rest).1
              simp at absent
      | cons d more =>
          refine .inr ⟨more, after, ?_⟩
          rw [List.append_assoc]
          exact (List.cons.inj rest).2.symm
  · rintro (inside | inside)
    · exact inside.trans (List.prefix_append left (c :: right)).isInfix
    · exact inside.trans ((List.suffix_cons c right).trans (List.suffix_append left _)).isInfix

end Text

namespace Clean

/-! ## The four passes -/

/-- No space or tab stands before a line break or at the end. -/
def Trimmed : Text → Prop
  | [] => True
  | c :: rest => (isIndent c → rest ≠ [] ∧ rest.head? ≠ some '\n') ∧ Trimmed rest

/-- At most two line breaks stand in a row, where `breaks` counts those right before the text. -/
def CappedFrom (breaks : Nat) : Text → Prop
  | [] => True
  | c :: rest =>
      if c = '\n' then breaks < 2 ∧ CappedFrom (breaks + 1) rest else CappedFrom 0 rest

variable {text : Text} {breaks : Nat}

theorem trimLineEnds_cons (c : Char) (rest : Text) :
    trimLineEnds (c :: rest) =
      if isIndent c && ((trimLineEnds rest).isEmpty || (trimLineEnds rest).head? = some '\n') then
        trimLineEnds rest
      else c :: trimLineEnds rest := rfl

theorem trimmed_trimLineEnds (text : Text) : Trimmed (trimLineEnds text) := by
  induction text with
  | nil => trivial
  | cons c rest ih =>
      rw [trimLineEnds_cons]
      split
      · exact ih
      · next kept =>
          refine ⟨?_, ih⟩
          intro indents
          simpa [indents] using kept

theorem trimLineEnds_of_trimmed (trimmed : Trimmed text) : trimLineEnds text = text := by
  induction text with
  | nil => rfl
  | cons c rest ih =>
      rw [trimLineEnds_cons, ih trimmed.2, if_neg]
      simpa using trimmed.1

theorem cappedFrom_capBreaksFrom (few : breaks ≤ 2) (text : Text) :
    CappedFrom breaks (capBreaksFrom breaks text) := by
  fun_induction capBreaksFrom breaks text with
  | case1 => trivial
  | case2 breaks rest less ih =>
      rw [CappedFrom, if_pos rfl]
      exact ⟨less, ih less⟩
  | case3 breaks rest _ ih => exact ih few
  | case4 breaks c rest other ih =>
      rw [CappedFrom, if_neg other]
      exact ih (by omega)

theorem capBreaksFrom_of_cappedFrom (capped : CappedFrom breaks text) :
    capBreaksFrom breaks text = text := by
  fun_induction capBreaksFrom breaks text with
  | case1 => rfl
  | case2 breaks rest less ih =>
      rw [CappedFrom, if_pos rfl] at capped
      rw [ih capped.2]
  | case3 breaks rest more ih =>
      rw [CappedFrom, if_pos rfl] at capped
      exact absurd capped.1 more
  | case4 breaks c rest other ih =>
      rw [CappedFrom, if_neg other] at capped
      rw [ih capped]

theorem trimmed_capBreaksFrom (trimmed : Trimmed text) : Trimmed (capBreaksFrom breaks text) := by
  fun_induction capBreaksFrom breaks text with
  | case1 => trivial
  | case2 breaks rest less ih => exact ⟨fun indents => absurd indents (by decide), ih trimmed.2⟩
  | case3 breaks rest _ ih => exact ih trimmed.2
  | case4 breaks c rest other ih =>
      refine ⟨?_, ih trimmed.2⟩
      intro indents
      obtain ⟨filled, noBreak⟩ := trimmed.1 indents
      obtain ⟨next, tail, rfl⟩ := List.exists_cons_of_ne_nil filled
      have inLine : next ≠ '\n' := by simpa using noBreak
      simp [capBreaksFrom, inLine]

theorem Trimmed.suffix {part : Text} (trimmed : Trimmed text) (suffix : part <:+ text) :
    Trimmed part := by
  induction text with
  | nil =>
      rw [List.suffix_nil.1 suffix]
      trivial
  | cons c rest ih =>
      rcases List.suffix_cons_iff.1 suffix with rfl | within
      · exact trimmed
      · exact ih trimmed.2 within

theorem Trimmed.trimEnd (trimmed : Trimmed text) : Trimmed text.trimEnd := by
  induction text with
  | nil => trivial
  | cons c rest ih =>
      rw [Text.trimEnd_cons]
      split
      · trivial
      · next kept =>
          refine ⟨?_, ih trimmed.2⟩
          intro indents
          have filled : Text.trimEnd rest ≠ [] := by
            simpa [isBlank_of_isIndent indents] using kept
          refine ⟨filled, ?_⟩
          obtain ⟨next, tail, shape⟩ := List.exists_cons_of_ne_nil filled
          obtain ⟨blanks, whole⟩ := Text.trimEnd_prefix rest
          have same : rest.head? = some next := by rw [← whole, shape]; rfl
          rw [shape, List.head?_cons, ← same]
          exact (trimmed.1 indents).2

theorem Trimmed.append_break (trimmed : Trimmed text) : Trimmed (text ++ ['\n']) := by
  induction text with
  | nil => exact ⟨by decide, trivial⟩
  | cons c rest ih =>
      refine ⟨?_, ih trimmed.2⟩
      intro indents
      obtain ⟨filled, noBreak⟩ := trimmed.1 indents
      obtain ⟨next, tail, rfl⟩ := List.exists_cons_of_ne_nil filled
      exact ⟨by simp, by simpa using noBreak⟩

/-- Trimmed texts are those whose lines do not end in a space or tab. -/
theorem trimmed_iff_lines (text : Text) :
    Trimmed text ↔
      ∀ line ∈ Text.splitOn '\n' text, ∀ c, line.getLast? = some c → isIndent c = false := by
  induction text with
  | nil => simp [Trimmed, Text.splitOn]
  | cons c rest ih =>
      rw [Trimmed, ih]
      by_cases isBreak : c = '\n'
      · subst isBreak
        have outside : isIndent '\n' = false := by decide
        simp [Text.splitOn_cons_self, outside]
      · obtain ⟨piece, pieces, cut⟩ := Text.exists_splitOn_eq '\n' rest
        have first := Text.splitOn_head_eq_nil_iff cut
        rw [Text.splitOn_cons isBreak cut, cut]
        simp only [List.forall_mem_cons, ← and_assoc]
        apply and_congr_left
        intro _
        cases piece with
        | nil =>
            have ends : rest = [] ∨ rest.head? = some '\n' := first.1 rfl
            have stops : ¬ (rest ≠ [] ∧ rest.head? ≠ some '\n') := by tauto
            simp [stops]
        | cons d piece =>
            have goesOn : rest ≠ [] ∧ rest.head? ≠ some '\n' := by
              simpa [not_or] using first.not.1 (by simp)
            simp [goesOn, List.getLast?_cons]

/-- Capped texts are those without three line breaks in a row. -/
theorem cappedFrom_iff (few : breaks ≤ 2) (text : Text) :
    CappedFrom breaks text ↔ ¬ ['\n', '\n', '\n'] <:+: List.replicate breaks '\n' ++ text := by
  have short {breaks : Nat} (few : breaks ≤ 2) :
      ¬ ['\n', '\n', '\n'] <:+: List.replicate breaks '\n' := by
    intro inside
    have := inside.length_le
    simp only [List.length_cons, List.length_nil, List.length_replicate] at this
    omega
  induction text generalizing breaks with
  | nil => simpa [CappedFrom] using short few
  | cons c rest ih =>
      rw [CappedFrom]
      split
      · next isBreak =>
          subst isBreak
          have more : List.replicate breaks '\n' ++ '\n' :: rest =
              List.replicate (breaks + 1) '\n' ++ rest := by
            rw [List.replicate_succ', List.append_assoc, List.singleton_append]
          rw [more]
          by_cases less : breaks < 2
          · exact (and_iff_right less).trans (ih less)
          · obtain rfl : breaks = 2 := by omega
            simp only [less, false_and, false_iff, not_not]
            exact List.infix_append [] ['\n', '\n', '\n'] rest
      · next other =>
          rw [Text.infix_append_cons_iff (by simpa using other), or_iff_right (short few)]
          exact ih (Nat.zero_le 2)

end Clean

/-! ## Clean texts -/

/-- A document that ends in one line break behind a character that is not blank, does not start with
a line break, and has no two blank lines in a row and no space or tab at the end of a line. -/
structure IsTidy (text : Text) : Prop where
  /-- The text ends in one line break, with a character that is not blank before it. -/
  ended : ∃ body c, text = body ++ [c, '\n'] ∧ isBlank c = false
  /-- The text does not start with a line break. -/
  started : text.head? ≠ some '\n'
  /-- There are no three line breaks in a row. -/
  capped : ¬ ['\n', '\n', '\n'] <:+: text
  /-- No line ends in a space or tab. -/
  trimmed : ∀ line ∈ Text.splitOn '\n' text, ∀ c, line.getLast? = some c → isIndent c = false

/-- A text is clean if it is a single line break or tidy. -/
def IsClean (text : Text) : Prop :=
  text = ['\n'] ∨ IsTidy text

theorem isClean_finalize (text : Text) : IsClean (finalize text) := by
  simp only [finalize]
  generalize start : (Clean.capBreaks (Clean.trimLineEnds text)).dropWhile (· = '\n') = capped
  have suffix : capped <:+ Clean.capBreaks (Clean.trimLineEnds text) := by
    rw [← start]
    exact List.dropWhile_suffix _
  have trimmed : Clean.Trimmed capped :=
    (Clean.trimmed_capBreaksFrom (Clean.trimmed_trimLineEnds text)).suffix suffix
  have noRun : ¬ ['\n', '\n', '\n'] <:+: capped := by
    intro inside
    have all := (Clean.cappedFrom_iff (Nat.zero_le 2) _).1
      (Clean.cappedFrom_capBreaksFrom (Nat.zero_le 2) (Clean.trimLineEnds text))
    exact all (inside.trans suffix.isInfix)
  have first : capped.head? ≠ some '\n' := by
    intro isBreak
    have other := List.head?_dropWhile_not (· = '\n') (Clean.capBreaks (Clean.trimLineEnds text))
    rw [start, isBreak] at other
    simp at other
  obtain ⟨blanks, whole⟩ := Text.trimEnd_prefix capped
  cases last : (Text.trimEnd capped).getLast? with
  | none =>
      rw [List.getLast?_eq_none_iff] at last
      exact .inl (by rw [last, List.nil_append])
  | some c =>
      obtain ⟨body, shape⟩ := List.getLast?_eq_some_iff.1 last
      have solid := Text.isBlank_getLast_trimEnd last
      have ended : Text.trimEnd capped ++ ['\n'] = body ++ [c, '\n'] := by simp [shape]
      refine .inr ⟨⟨body, c, ended, solid⟩, ?_, ?_, ?_⟩
      · have same : capped.head? = (Text.trimEnd capped ++ ['\n']).head? := by
          conv => lhs; rw [← whole, shape]
          rw [ended]
          cases body <;> rfl
        exact same ▸ first
      · have inLine : c ∉ ['\n', '\n', '\n'] := by
          intro member
          have isBreak : c = '\n' := by simpa using member
          simp [isBreak] at solid
        rw [ended, Text.infix_append_cons_iff inLine]
        rintro (inside | inside)
        · have part : body <+: Text.trimEnd capped := ⟨[c], shape.symm⟩
          exact noRun (inside.trans (part.trans (Text.trimEnd_prefix capped)).isInfix)
        · simpa using inside.length_le
      · exact (Clean.trimmed_iff_lines _).1 trimmed.trimEnd.append_break

theorem finalize_of_isClean {text : Text} (clean : IsClean text) : finalize text = text := by
  rcases clean with rfl | tidy
  · decide
  · have trimmed := Clean.trimLineEnds_of_trimmed ((Clean.trimmed_iff_lines text).2 tidy.trimmed)
    have capped : Clean.capBreaks text = text :=
      Clean.capBreaksFrom_of_cappedFrom ((Clean.cappedFrom_iff (Nat.zero_le 2) text).2 tidy.capped)
    have started : text.dropWhile (· = '\n') = text := by
      cases text with
      | nil => rfl
      | cons c rest => exact List.dropWhile_cons_of_neg (by simpa using tidy.started)
    obtain ⟨body, c, shape, solid⟩ := tidy.ended
    have kept : text.trimEnd = body ++ [c] := by
      have last : Text.trimEnd [c, '\n'] = [c] := by
        rw [Text.trimEnd_cons, solid]
        rfl
      rw [shape, Text.trimEnd_append (by simp [last]), last]
    simp only [finalize]
    rw [trimmed, capped, started, kept, shape]
    simp

/-- The clean-up leaves exactly the clean texts alone. -/
theorem finalize_eq_self_iff_isClean (text : Text) : finalize text = text ↔ IsClean text :=
  ⟨fun same => same ▸ isClean_finalize text, finalize_of_isClean⟩

/-! ## The lines of a clean text -/

namespace Clean

/-- The lines of a text that are not blank. -/
def filledLines (text : Text) : List Text :=
  (Text.splitOn '\n' text).filter (!Text.isBlank ·)

/-- A line may have lost blanks at its end. -/
def Shortened (line kept : Text) : Prop :=
  ∃ blanks : Text, blanks.all isBlank ∧ line = kept ++ blanks

/-- The lines of a text that are not blank are those of another one, shortened maybe. -/
def Keeps (text other : Text) : Prop :=
  List.Forall₂ Shortened (filledLines text) (filledLines other)

/-- The first line of a text is shortened maybe, and the other lines are kept. -/
def KeepsAll (text other : Text) : Prop :=
  ∃ line kept lines others, Text.splitOn '\n' text = line :: lines ∧
    Text.splitOn '\n' other = kept :: others ∧ Shortened line kept ∧
    List.Forall₂ Shortened (lines.filter (!Text.isBlank ·)) (others.filter (!Text.isBlank ·))

theorem Shortened.refl (line : Text) : Shortened line line :=
  ⟨[], rfl, (List.append_nil line).symm⟩

theorem Shortened.trans {line kept last : Text} (first : Shortened line kept)
    (second : Shortened kept last) : Shortened line last := by
  obtain ⟨blanks, blank, rfl⟩ := first
  obtain ⟨more, blankToo, rfl⟩ := second
  exact ⟨more ++ blanks, by simp [blankToo, blank], List.append_assoc _ _ _⟩

theorem Shortened.isBlank_eq {line kept : Text} (shortened : Shortened line kept) :
    Text.isBlank line = Text.isBlank kept := by
  obtain ⟨blanks, blank, rfl⟩ := shortened
  simp [Text.isBlank, blank]

theorem Keeps.refl (text : Text) : Keeps text text :=
  List.forall₂_same.2 fun line _ => .refl line

theorem Keeps.trans {text other last : Text} (first : Keeps text other)
    (second : Keeps other last) : Keeps text last := by
  rw [Keeps] at first second ⊢
  generalize filledLines text = lines at first
  generalize filledLines other = others at first second
  generalize filledLines last = final at second
  induction first generalizing final with
  | nil => exact second
  | cons shortened _ ih =>
      cases second with
      | cons more rest => exact .cons (shortened.trans more) (ih _ rest)

theorem KeepsAll.keeps {text other : Text} (keeps : KeepsAll text other) : Keeps text other := by
  obtain ⟨line, kept, lines, others, cut, otherCut, shortened, rest⟩ := keeps
  rw [Keeps, filledLines, filledLines, cut, otherCut, List.filter_cons, List.filter_cons,
    shortened.isBlank_eq]
  split
  · exact .cons shortened rest
  · exact rest

theorem KeepsAll.refl (text : Text) : KeepsAll text text := by
  obtain ⟨line, lines, cut⟩ := Text.exists_splitOn_eq '\n' text
  exact ⟨line, line, lines, lines, cut, cut, .refl line, List.forall₂_same.2 fun line _ => .refl line⟩

theorem KeepsAll.cons {c : Char} (inLine : c ≠ '\n') {text other : Text}
    (keeps : KeepsAll text other) : KeepsAll (c :: text) (c :: other) := by
  obtain ⟨line, kept, lines, others, cut, otherCut, ⟨blanks, blank, rfl⟩, rest⟩ := keeps
  exact ⟨_, _, lines, others, Text.splitOn_cons inLine cut, Text.splitOn_cons inLine otherCut,
    ⟨blanks, blank, rfl⟩, rest⟩

theorem Keeps.nextLine {text other : Text} (keeps : Keeps text other) :
    KeepsAll ('\n' :: text) ('\n' :: other) :=
  ⟨[], [], _, _, Text.splitOn_cons_self '\n' text, Text.splitOn_cons_self '\n' other, .refl [], keeps⟩

theorem filledLines_break (text : Text) : filledLines ('\n' :: text) = filledLines text := by
  simp [filledLines, Text.splitOn_cons_self, Text.isBlank]

/-- A blank can be dropped from the end of a line. -/
theorem KeepsAll.drop {c : Char} (blank : isBlank c) (inLine : c ≠ '\n') {text other : Text}
    (stops : other = [] ∨ other.head? = some '\n') (keeps : KeepsAll text other) :
    KeepsAll (c :: text) other := by
  obtain ⟨line, kept, lines, others, cut, otherCut, ⟨blanks, blankToo, rfl⟩, rest⟩ := keeps
  obtain rfl := (Text.splitOn_head_eq_nil_iff otherCut).2 stops
  exact ⟨_, [], lines, others, Text.splitOn_cons inLine cut, otherCut,
    ⟨c :: blanks, by simp [blank, blankToo], rfl⟩, rest⟩

/-- A blank line can be dropped from the end of a text. -/
theorem KeepsAll.drop_break {text : Text} (keeps : KeepsAll text []) :
    KeepsAll ('\n' :: text) [] :=
  ⟨[], [], _, [], Text.splitOn_cons_self '\n' text, rfl, .refl [], keeps.keeps⟩

theorem keepsAll_trimLineEnds (text : Text) : KeepsAll text (trimLineEnds text) := by
  induction text with
  | nil => exact .refl []
  | cons c rest ih =>
      rw [trimLineEnds_cons]
      split
      · next dropped =>
          simp only [Bool.and_eq_true, Bool.or_eq_true, List.isEmpty_iff, decide_eq_true_eq] at dropped
          have inLine : c ≠ '\n' := by
            rintro rfl
            exact absurd dropped.1 (by decide)
          exact ih.drop (isBlank_of_isIndent dropped.1) inLine dropped.2
      · by_cases isBreak : c = '\n'
        · subst isBreak
          exact ih.keeps.nextLine
        · exact ih.cons isBreak

theorem keeps_capBreaksFrom (breaks : Nat) (text : Text) :
    Keeps text (capBreaksFrom breaks text) ∧
      (breaks < 2 → KeepsAll text (capBreaksFrom breaks text)) := by
  fun_induction capBreaksFrom breaks text with
  | case1 => exact ⟨.refl [], fun _ => .refl []⟩
  | case2 breaks rest less ih => exact ⟨ih.1.nextLine.keeps, fun _ => ih.1.nextLine⟩
  | case3 breaks rest more ih =>
      refine ⟨?_, fun less => absurd less more⟩
      rw [Keeps, filledLines_break]
      exact ih.1
  | case4 breaks c rest other ih =>
      have all := (ih.2 (by decide)).cons other
      exact ⟨all.keeps, fun _ => all⟩

theorem keepsAll_trimEnd (text : Text) : KeepsAll text text.trimEnd := by
  induction text with
  | nil => exact .refl []
  | cons c rest ih =>
      rw [Text.trimEnd_cons]
      split
      · next dropped =>
          simp only [Bool.and_eq_true, List.isEmpty_iff] at dropped
          rw [dropped.2] at ih
          by_cases isBreak : c = '\n'
          · subst isBreak
            exact ih.drop_break
          · exact ih.drop dropped.1 isBreak (.inl rfl)
      · by_cases isBreak : c = '\n'
        · subst isBreak
          exact ih.keeps.nextLine
        · exact ih.cons isBreak

theorem keepsAll_append_break (text : Text) : KeepsAll text (text ++ ['\n']) := by
  induction text with
  | nil => exact ⟨[], [], [], [[]], rfl, rfl, .refl [], .nil⟩
  | cons c rest ih =>
      by_cases isBreak : c = '\n'
      · subst isBreak
        exact ih.keeps.nextLine
      · exact ih.cons isBreak

end Clean

/-- The clean-up keeps the lines that are not blank, and takes nothing but blanks off their ends. -/
theorem keeps_finalize (text : Text) : Clean.Keeps text (finalize text) := by
  have started (text : Text) : Clean.Keeps text (text.dropWhile (· = '\n')) := by
    induction text with
    | nil => exact .refl []
    | cons c rest ih =>
        by_cases isBreak : c = '\n'
        · subst isBreak
          rw [List.dropWhile_cons_of_pos (by simp), Clean.Keeps, Clean.filledLines_break]
          exact ih
        · rw [List.dropWhile_cons_of_neg (by simpa using isBreak)]
          exact .refl _
  have trimmed := (Clean.keepsAll_trimLineEnds text).keeps
  have capped := trimmed.trans (Clean.keeps_capBreaksFrom 0 _).1
  have begun := capped.trans (started _)
  have ended := begun.trans (Clean.keepsAll_trimEnd _).keeps
  exact ended.trans (Clean.keepsAll_append_break _).keeps

end IdlFormat
