import IdlFormat.Proofs.Bead
import IdlFormat.Proofs.Clean
import IdlFormat.Proofs.Content
import IdlFormat.Proofs.Monitor
import IdlFormat.Proofs.Stretch
import IdlFormat.Proofs.Tiling
import IdlFormat.Proofs.TopLevel

/-!
# When formatting fails

Formatting fails in one way only: a number between two placeholder marks has too many digits to be
read. The formatter writes such numbers itself, but its own are short. So there must be a mark in
the text and a run of as many digits, and without either of them every text is formatted.

A monitor counts the digits behind each mark (`Mask.numbers`): hidden texts are masked with numbers
that are short or stand in the source, and respacing makes no others.
-/

namespace IdlFormat

theorem isDecimalDigit_of_isBlank {c : Char} (blank : isBlank c) : isDecimalDigit c = false := by
  have listed := toNat_mem_of_isBlank blank
  simp only [isDecimalDigit, digitValue?]
  generalize c.toNat = n at listed
  clear blank
  revert n
  decide +kernel

namespace Text

/-- A run of digits that stands in a text. -/
def DigitRun (run text : Text) : Prop :=
  run <:+: text ∧ run.all isDecimalDigit

namespace DigitRun

variable {run text : Text}

theorem of_part {part : Text} (inside : DigitRun run part) (within : part <:+: text) :
    DigitRun run text :=
  ⟨inside.1.trans within, inside.2⟩

theorem append_cons_iff {c : Char} (other : isDecimalDigit c = false) {left right : Text} :
    DigitRun run (left ++ c :: right) ↔ DigitRun run left ∨ DigitRun run right := by
  by_cases digits : run.all isDecimalDigit
  · have absent : c ∉ run := by
      intro member
      have := List.all_eq_true.1 digits c member
      rw [other] at this
      simp at this
    simp only [DigitRun, digits, and_true]
    exact infix_append_cons_iff absent
  · simp [DigitRun, digits]

/-- What is no digit can be taken out: no run lies across it. -/
theorem of_insert {left middle right : Text} (others : ∀ c ∈ middle, isDecimalDigit c = false)
    (inside : DigitRun run (left ++ (middle ++ right))) : DigitRun run (left ++ right) := by
  induction middle generalizing left with
  | nil => exact inside
  | cons c middle ih =>
      rw [List.cons_append, append_cons_iff (others c List.mem_cons_self)] at inside
      rcases inside with before | behind
      · exact before.of_part (List.prefix_append left right).isInfix
      · have rest := @ih [] (fun d member => others d (List.mem_cons_of_mem c member)) behind
        exact rest.of_part (List.suffix_append left right).isInfix

theorem of_normalizeBreaks (inside : DigitRun run text.normalizeBreaks) : DigitRun run text := by
  have lineFeed : isDecimalDigit '\n' = false := by decide
  have carriage : isDecimalDigit '\r' = false := by decide
  suffices all : ∀ left, DigitRun run (left ++ text.normalizeBreaks) → DigitRun run (left ++ text) from
    all [] inside
  clear inside
  fun_induction normalizeBreaks text with
  | case1 => exact fun left inside => inside
  | case2 rest ih =>
      intro left inside
      rw [append_cons_iff lineFeed] at inside
      rw [append_cons_iff carriage, ← @List.nil_append _ ('\n' :: rest), append_cons_iff lineFeed]
      rcases inside with before | behind
      · exact .inl before
      · exact .inr (.inr (ih [] behind))
  | case3 c rest _ ih =>
      intro left inside
      split at inside
      · next isReturn =>
          rw [append_cons_iff lineFeed] at inside
          rw [isReturn, append_cons_iff carriage]
          exact inside.imp_right (ih [])
      · have more := ih (left ++ [c])
        simp only [List.append_assoc, List.singleton_append] at more
        exact more inside

end DigitRun

end Text

open Text (DigitRun)

theorem isContent_of_isDecimalDigit {c : Char} (digit : isDecimalDigit c) : isContent c := by
  have solid : isBlank c = false := by
    cases blank : isBlank c with
    | false => rfl
    | true => simp [isDecimalDigit_of_isBlank blank] at digit
  simp only [isContent, solid, Bool.not_false, Bool.true_and, Bool.not_eq_true',
    List.contains_eq_mem, decide_eq_false_iff_not]
  intro member
  exact absurd (List.any_eq_true.2 ⟨c, member, digit⟩) (by decide)

namespace Segment

theorem digitRun_flatMap_closed {segments : List Segment} (lexed : Lexed segments) {run left : Text}
    (inside : DigitRun run (left ++ segments.flatMap closed)) :
    DigitRun run (left ++ spell segments) := by
  induction segments generalizing left with
  | nil => exact inside
  | cons segment segments ih =>
      rw [List.flatMap_cons] at inside
      rw [spell_cons, ← List.append_assoc]
      obtain ⟨fits, later⟩ := lexed
      cases segment with
      | code c => exact ih later (by simpa [closed, text] using inside)
      | comment form body => exact ih later (by simpa [closed, text] using inside)
      | literal literal repair =>
          obtain ⟨quote, body, rfl, quoted, whole, -⟩ := fits
          have others : ∀ c ∈ repair, isDecimalDigit c = false := by
            intro c member
            have empty := content_repair_eq_nil quoted whole
            have dropped := List.filter_eq_nil_iff.1 empty c member
            cases digit : isDecimalDigit c with
            | false => rfl
            | true => exact absurd (isContent_of_isDecimalDigit digit) dropped
          apply ih later
          apply DigitRun.of_insert others
          simpa [closed, text] using inside

end Segment

theorem digitRun_of_closeLiterals {run text : Text} (inside : DigitRun run (closeLiterals text)) :
    DigitRun run text := by
  have spelled := @Segment.digitRun_flatMap_closed _ (Segment.lexed_split text) run [] inside
  rwa [List.nil_append, Segment.spell_split] at spelled

namespace Mask

/-! ## The numbers of a masked text -/

/-- The count of the digits since the last mark, after one more character. -/
def countDigits (count : Option Nat) (c : Char) : Option Nat :=
  if c = mark then some 0 else if isDecimalDigit c then count.map (· + 1) else none

theorem countDigits_of_not_digit {c : Char} (other : isDecimalDigit c = false) (shown : c ≠ mark)
    (count : Option Nat) : countDigits count c = none := by
  simp [countDigits, other, shown]

theorem countDigits_of_isBlank {c : Char} (blank : isBlank c) (count : Option Nat) :
    countDigits count c = none := by
  apply countDigits_of_not_digit (isDecimalDigit_of_isBlank blank)
  rintro rfl
  revert blank
  decide

/-- Objects to a number between two marks unless its count of digits is allowed. -/
def numbers (allowed : Nat → Prop) : Monitor (Option Nat) where
  Admits count c := c = mark → ∀ digits, count = some digits → allowed digits
  next := countDigits
  Laxer strict lax := lax = none ∨ strict = lax
  refl _ := .inr rfl
  admits := by
    rintro strict _ c (rfl | rfl) admitted
    · simp
    · exact admitted
  after := by
    rintro strict _ c (rfl | rfl)
    · by_cases marked : c = mark <;> simp [countDigits, marked]
    · exact .inr rfl
  space _ := fun marked => absurd marked (by decide)
  relaxed _ := .inl (countDigits_of_isBlank isBlank_space _)
  blank _ _ _ := .inl (countDigits_of_isBlank isBlank_space _)
  twice _ := .inl (countDigits_of_isBlank isBlank_space _)
  tight := by
    intro count c punctuation
    have other : isDecimalDigit c = false := by
      rw [Bool.eq_false_iff]
      intro digit
      exact absurd (List.any_eq_true.2 ⟨c, punctuation, digit⟩) (by decide)
    have shown : c ≠ mark := by
      rintro rfl
      exact absurd punctuation (by decide)
    exact ⟨fun _ marked => absurd marked shown, .inl (countDigits_of_not_digit other shown _)⟩
  opened _ := .inl (countDigits_of_not_digit (by decide) (by decide) _)
  closing _ := fun marked => absurd marked (by decide)
  guid := by
    rintro count _ guid rfl
    exact absurd guid (by decide)

variable {allowed : Nat → Prop} {count : Option Nat} {text : Text}

theorem Passes.digits {digits : Text} (decimal : ∀ c ∈ digits, isDecimalDigit c) {seen : Nat} :
    (numbers allowed).Passes (some seen) (digits ++ text) ↔
      (numbers allowed).Passes (some (seen + digits.length)) text := by
  induction digits generalizing seen with
  | nil => rfl
  | cons c digits ih =>
      have digit := decimal c List.mem_cons_self
      have shown : c ≠ mark := by
        rintro rfl
        revert digit
        decide
      have counted : countDigits (some seen) c = some (seen + 1) := by
        simp [countDigits, digit, shown]
      have here : (numbers allowed).Admits (some seen) c := fun marked => absurd marked shown
      have more := @ih (fun d member => decimal d (List.mem_cons_of_mem c member)) (seen + 1)
      rw [List.cons_append, Monitor.Passes, and_iff_right here, List.length_cons,
        Nat.add_comm digits.length 1, ← Nat.add_assoc, ← more]
      show (numbers allowed).Passes (countDigits (some seen) c) _ ↔ _
      rw [counted]

/-- A number between two marks is judged by its count of digits. -/
theorem passes_number_iff {digits : Text} (decimal : ∀ c ∈ digits, isDecimalDigit c) :
    (numbers allowed).Passes count (mark :: (digits ++ mark :: text)) ↔
      (∀ seen, count = some seen → allowed seen) ∧ allowed digits.length ∧
        (numbers allowed).Passes (some 0) text := by
  have opens : countDigits count mark = some 0 := rfl
  have closes : countDigits (some (0 + digits.length)) mark = some 0 := rfl
  have admits (count : Option Nat) :
      (numbers allowed).Admits count mark ↔ ∀ seen, count = some seen → allowed seen :=
    forall_prop_of_true rfl
  rw [Monitor.Passes, admits]
  show _ ∧ (numbers allowed).Passes (countDigits count mark) _ ↔ _
  rw [opens, Passes.digits decimal, Monitor.Passes, admits]
  show _ ∧ _ ∧ (numbers allowed).Passes (countDigits (some (0 + digits.length)) mark) text ↔ _
  rw [closes]
  simp

theorem eq_of_placeholder? {digits rest : Text} (found : placeholder? text = some (digits, rest)) :
    text = mark :: (digits ++ mark :: rest) ∧ ∀ c ∈ digits, isDecimalDigit c := by
  unfold placeholder? at found
  split at found
  · simp at found
  · next c tail =>
      split at found
      · next opened =>
          split at found
          · simp at found
          · next d after cut =>
              split at found
              · next closed =>
                  simp only [Option.some.injEq, Prod.mk.injEq] at found
                  simp only [Bool.and_eq_true, decide_eq_true_eq] at opened
                  obtain ⟨rfl, rfl⟩ := found
                  have whole := List.takeWhile_append_dropWhile (p := isDecimalDigit) (l := tail)
                  rw [cut, closed] at whole
                  exact ⟨by rw [opened.1, whole], List.all_eq_true.1 List.all_takeWhile⟩
              · simp at found
      · simp at found

/-- Restoring fails at a number that is too long, if at all. -/
theorem restore_error {saved : List Text} {excess : Numeral.TooLong}
    (passes : (numbers allowed).Passes none text) (found : restore saved text = .error excess) :
    allowed excess.digits ∧ Numeral.digitLimit < excess.digits := by
  fun_induction restore saved text with
  | case1 text digits rest there ih =>
      obtain ⟨rfl, decimal⟩ := eq_of_placeholder? there
      obtain ⟨-, fine, later⟩ := (passes_number_iff decimal).1 passes
      rcases bind_eq_error_iff.1 found with unread | ⟨number, -, found⟩
      · rw [Numeral.ofDigits] at unread
        split at unread
        · next long =>
            obtain rfl := Except.error.inj unread
            exact ⟨fine, long⟩
        · simp at unread
      · rcases bind_eq_error_iff.1 found with more | ⟨restored, -, found⟩
        · exact ih (later.relax (.inl rfl)) more
        · simp [pure, Except.pure] at found
  | case2 => simp at found
  | case3 c rest there ih =>
      rcases bind_eq_error_iff.1 found with more | ⟨restored, -, found⟩
      · exact ih (passes.2.relax (.inl rfl)) more
      · simp [pure, Except.pure] at found

/-- A masked text has short numbers and numbers of its source only. -/
theorem passes_write {segments : List Segment} {next : Nat}
    (few : next + (Segment.hidden segments).length ≤ 10 ^ Numeral.digitLimit)
    (short : ∀ digits ≤ Numeral.digitLimit, allowed digits) {left : Text}
    (known : ∀ seen, count = some seen → left.length = seen ∧ left.all isDecimalDigit)
    (runs : ∀ run, DigitRun run (left ++ Segment.spell segments) → allowed run.length) :
    (numbers allowed).Passes count (write next (segments.map Segment.piece)) := by
  induction segments generalizing next count left with
  | nil => trivial
  | cons segment segments ih =>
      -- a mark ends the run of digits in front of it, which stands in the source
      have ended : ∀ seen, count = some seen → allowed seen := by
        intro seen counted
        obtain ⟨rfl, digits⟩ := known seen counted
        exact runs left ⟨(List.prefix_append _ _).isInfix, digits⟩
      have later : ∀ run, DigitRun run ([] ++ Segment.spell segments) → allowed run.length := by
        intro run inside
        rw [Segment.spell_cons, ← List.append_assoc] at runs
        exact runs run (inside.of_part (List.suffix_append _ _).isInfix)
      have hide (counted : (Segment.hidden (segment :: segments)).length =
          (Segment.hidden segments).length + 1) :
          (numbers allowed).Passes count (placeholder next ++
            write (next + 1) (segments.map Segment.piece)) := by
        rw [placeholder, List.append_assoc, List.cons_append, List.singleton_append,
          passes_number_iff]
        · refine ⟨ended, short _ ?_, ih (by omega) (by simp) later⟩
          apply (Nat.length_toDigits_le_iff (by decide) (by decide)).2
          omega
        · intro c member
          simp [isDecimalDigit, digitValue?_of_isDigit (isDigit_of_mem_ofNat member)]
      cases segment with
      | literal text repair => exact hide rfl
      | comment form text => exact hide rfl
      | code c =>
          refine ⟨fun _ => ended, ?_⟩
          show (numbers allowed).Passes (countDigits count c) _
          have few' : next + (Segment.hidden segments).length ≤ 10 ^ Numeral.digitLimit := few
          rw [countDigits]
          split
          · exact ih few' (by simp) later
          · split
            · next digit =>
                apply @ih _ _ few' (left ++ [c])
                · intro seen counted
                  obtain ⟨before, same, rfl⟩ := Option.map_eq_some_iff.1 counted
                  obtain ⟨rfl, digits⟩ := known before same
                  simp [digits, digit]
                · simpa [Segment.text] using runs
            · exact ih few' (by simp) later

end Mask

/-! ## Texts with a number that is too long -/

/-- A text in which a number of so many digits can stand behind a mark: it has a mark, and a run of
as many digits. -/
structure Overlong (excess : Numeral.TooLong) (text : Text) : Prop where
  /-- There is a mark. -/
  marked : Mask.mark ∈ text
  /-- The number is too long. -/
  exceeds : Numeral.digitLimit < excess.digits
  /-- There is a run of as many digits. -/
  run : ∃ run, DigitRun run text ∧ run.length = excess.digits

namespace Overlong

variable {excess : Numeral.TooLong} {text : Text}

theorem of_part {part : Text} (overlong : Overlong excess part) (within : part <:+: text) :
    Overlong excess text := by
  obtain ⟨run, inside, length⟩ := overlong.run
  exact ⟨within.subset overlong.marked, overlong.exceeds, run, inside.of_part within, length⟩

theorem of_normalizeBreaks (overlong : Overlong excess text.normalizeBreaks) :
    Overlong excess text := by
  obtain ⟨run, inside, length⟩ := overlong.run
  have marked : Mask.mark ∈ text :=
    (Text.mem_of_mem_normalizeBreaks overlong.marked).resolve_left (by decide)
  exact ⟨marked, overlong.exceeds, run, inside.of_normalizeBreaks, length⟩

theorem of_closeLiterals (overlong : Overlong excess (closeLiterals text)) :
    Overlong excess text := by
  obtain ⟨run, inside, length⟩ := overlong.run
  have marked : Mask.mark ∈ text := by
    rw [← Text.mark_mem_content_iff, ← content_closeLiterals, Text.mark_mem_content_iff]
    exact overlong.marked
  exact ⟨marked, overlong.exceeds, run, digitRun_of_closeLiterals inside, length⟩

/-- The brackets that close a text are no part of a number. -/
theorem of_append_closers {missing : Nat}
    (overlong : Overlong excess (text ++ List.replicate missing ']')) : Overlong excess text := by
  obtain ⟨run, inside, length⟩ := overlong.run
  have marked : Mask.mark ∈ text := by
    rcases List.mem_append.1 overlong.marked with before | added
    · exact before
    · exact absurd (List.eq_of_mem_replicate added) (by decide)
  have closers : ∀ c ∈ List.replicate missing ']', isDecimalDigit c = false := by
    intro c member
    rw [List.eq_of_mem_replicate member]
    decide
  refine ⟨marked, overlong.exceeds, run, ?_, length⟩
  rw [← List.append_nil (List.replicate missing ']')] at inside
  simpa using DigitRun.of_insert closers inside

end Overlong

/-- Restoring a respaced text fails only if the text holds the number that is too long. -/
theorem Mask.overlong_of_unmask_error {respace : Text → Text}
    (passes_respace : ∀ {allowed : Nat → Prop} {text : Text},
      (numbers allowed).Passes none text → (numbers allowed).Passes none (respace text))
    {text : Text} {post : Text → Prop}
    (settles : mark ∉ text → Settles text.length
      (unmask (mask text).saved (respace (mask text).text)) post)
    (short : text.length ≤ 10 ^ Numeral.digitLimit) {excess : Numeral.TooLong}
    (found : unmask (mask text).saved (respace (mask text).text) = .error excess) :
    Overlong excess text := by
  have marked : mark ∈ text := by
    by_contra noMark
    have few := settles noMark
    rw [found] at few
    exact absurd few (Nat.not_lt.2 short)
  let allowed (digits : Nat) : Prop :=
    digits ≤ Numeral.digitLimit ∨ ∃ run, DigitRun run text ∧ run.length = digits
  have masked : (numbers allowed).Passes none (mask text).text := by
    show (numbers allowed).Passes none (write 0 (pieces (closeLiterals text)))
    rw [pieces_closeLiterals]
    have hidden := length_hidden_split_le text
    apply @passes_write _ _ _ _ (by omega) (fun digits small => .inl small) [] (by simp)
    intro run inside
    rw [List.nil_append, Segment.spell_split] at inside
    exact .inr ⟨run, inside, rfl⟩
  have restored : restore (mask text).saved (respace (mask text).text) = .error excess := by
    rw [unmask] at found
    split at found
    · simp at found
    · exact found
  obtain ⟨known, exceeds⟩ := restore_error (passes_respace masked) restored
  exact ⟨marked, exceeds, known.resolve_left (Nat.not_le.2 exceeds)⟩

theorem Statement.overlong_of_normalize_error {text : Text} {excess : Numeral.TooLong}
    (short : text.length ≤ 10 ^ Numeral.digitLimit) (found : normalize text = .error excess) :
    Overlong excess text :=
  Mask.overlong_of_unmask_error Monitor.passes_statementRespace
    (fun noMark => (normalize_eq noMark).grow (length_hidden_split_le text)) short found

theorem Attribute.overlong_of_format_error {text : Text} {excess : Numeral.TooLong}
    (short : text.length ≤ 10 ^ Numeral.digitLimit) (found : format text = .error excess) :
    Overlong excess text :=
  Mask.overlong_of_unmask_error Monitor.passes_attributeRespace
    (fun noMark => (format_eq noMark).grow (length_hidden_split_le text)) short found

theorem Text.isInfix_trim (text : Text) : text.trim <:+: text :=
  (Text.trimEnd_prefix text.trimStart).isInfix.trans (List.dropWhile_suffix IdlFormat.isBlank).isInfix

/-- An attribute with a number that is too long stands in a block with one. -/
theorem Attribute.overlong_of_mem_split {excess : Numeral.TooLong} {block single : Text}
    (overlong : Overlong excess single) (member : single ∈ split block) :
    Overlong excess block := by
  obtain ⟨piece, isPiece, rfl⟩ := List.mem_map.1 (List.mem_filter.1 member).1
  have inner : Overlong excess (content block) :=
    (overlong.of_part (Text.isInfix_trim piece)).of_part
      (Bracket.isInfix_of_mem_splitTopLevel isPiece)
  have dropped : block.drop 1 <:+: block := (List.drop_suffix 1 block).isInfix
  rw [content] at inner
  split at inner
  · exact (inner.of_part (List.dropLast_prefix _).isInfix).of_part dropped
  · exact inner.of_append_closers.of_closeLiterals.of_part dropped

/-! ## Formatting fails at a number that is too long -/

theorem Span.isInfix_source_of_mem_split {text : Text} {span : Span} (member : span ∈ split text) :
    span.source <:+: text := by
  obtain ⟨c, rest, part, rfl⟩ := exists_cut_of_mem_split member
  have start : (cut c rest).1.source <+: c :: rest := ⟨_, source_append_cut c rest⟩
  exact start.isInfix.trans part.isInfix

theorem Token.normalize_eq_error {inEnum closesBody : Bool} {text : Text} {excess : Numeral.TooLong}
    (found : ofCodeUnit inEnum closesBody text = .error excess) :
    Statement.normalize text = .error excess := by
  rcases bind_eq_error_iff.1 found with failed | ⟨normalized, -, found⟩
  · exact failed
  · simp only [pure, Except.pure] at found
    split at found
    · simp at found
    · generalize (if inEnum then EnumMember.split (!closesBody) normalized else []) = members at found
      split at found <;> simp at found

/-- Cutting into tokens fails at a unit of code, if at all. -/
theorem Token.exists_normalize_error {spans : List Span} {before : List Token}
    {excess : Numeral.TooLong} (found : ofSpansAfter before spans = .error excess) :
    ∃ source, .codeUnit source ∈ spans ∧ Statement.normalize source = .error excess := by
  induction spans generalizing before with
  | nil => simp [ofSpansAfter] at found
  | cons span spans ih =>
      rcases bind_eq_error_iff.1 found with own | ⟨tokens, -, found⟩
      · cases span with
        | codeUnit source => exact ⟨source, List.mem_cons_self, normalize_eq_error own⟩
        | comment form text => cases form <;> simp [ofSpan] at own
        | _ => simp [ofSpan] at own
      · obtain ⟨source, member, failed⟩ := ih found
        exact ⟨source, List.mem_cons_of_mem span member, failed⟩

/-- The lines of a token fail at an attribute, if at all. -/
theorem Layout.exists_tokenLines_error {style : Style} {level : Nat} {token : Token}
    {excess : Numeral.TooLong} (found : tokenLines style level token = .error excess) :
    token.kind = .attributeBlock ∧
      ∃ single ∈ Attribute.split token.text, Attribute.format single = .error excess := by
  unfold tokenLines at found
  simp only at found
  split at found
  · simp at found
  · split at found <;> simp at found
  · next isBlock =>
      rcases bind_eq_error_iff.1 found with failed | ⟨attributes, -, found⟩
      · exact ⟨isBlock, exists_of_mapM_eq_error failed⟩
      · simp [pure, Except.pure] at found
  · simp at found
  · simp at found
  · simp at found

/-- Laying tokens out fails at an attribute, if at all. -/
theorem Layout.exists_linesFrom_error {style : Style} {level : Nat} {previous : Option Token}
    {tokens : List Token} {excess : Numeral.TooLong}
    (found : linesFrom style level previous tokens = .error excess) :
    ∃ token ∈ tokens, token.kind = .attributeBlock ∧
      ∃ single ∈ Attribute.split token.text, Attribute.format single = .error excess := by
  induction tokens generalizing level previous with
  | nil => simp [linesFrom] at found
  | cons token tokens ih =>
      rcases bind_eq_error_iff.1 found with own | ⟨lines, -, found⟩
      · exact ⟨token, List.mem_cons_self, exists_tokenLines_error own⟩
      · rcases bind_eq_error_iff.1 found with more | ⟨rest, -, found⟩
        · obtain ⟨other, member, failed⟩ := ih more
          exact ⟨other, List.mem_cons_of_mem token member, failed⟩
        · simp [pure, Except.pure] at found

/-- An attribute block stands in the source. -/
theorem Token.isInfix_attributeBlock {text : Text} {tokens : List Token}
    (found : ofSource text = .ok tokens) {token : Token} (member : token ∈ tokens)
    (isBlock : token.kind = .attributeBlock) : token.text <:+: text := by
  obtain ⟨tiles, laid, rfl⟩ := ofSource_laid found
  obtain ⟨_, after, c, tail, group, yields, own, part, -⟩ := laid.exists_yields member
  have within : c :: tail <:+: text := (List.prefix_append _ _).isInfix.trans part.isInfix
  generalize c :: tail = source at yields within
  cases yields with
  | attributeBlock => rwa [List.mem_singleton.1 own]
  | members =>
      obtain ⟨member, -, rfl⟩ := List.mem_map.1 own
      simp at isBlock
  | _ =>
      rw [List.mem_singleton.1 own] at isBlock
      simp at isBlock

namespace Document

/-- Formatting fails only at a number that is too long. -/
theorem overlong_of_format_error {text : Text} {style : Style} {excess : Numeral.TooLong}
    (short : 4 * text.length ≤ 10 ^ Numeral.digitLimit)
    (found : format style text = .error excess) : Overlong excess text := by
  have shorter := text.length_normalizeBreaks_le
  apply Overlong.of_normalizeBreaks
  rcases bind_eq_error_iff.1 found with cut | ⟨tokens, cut, found⟩
  · obtain ⟨source, member, failed⟩ := Token.exists_normalize_error cut
    have within : source <:+: text.normalizeBreaks := Span.isInfix_source_of_mem_split member
    have small := within.length_le
    exact (Statement.overlong_of_normalize_error (by omega) failed).of_part within
  · rcases bind_eq_error_iff.1 found with laid | ⟨lines, -, found⟩
    · obtain ⟨token, member, isBlock, single, isSingle, failed⟩ :=
        Layout.exists_linesFrom_error laid
      have within := Token.isInfix_attributeBlock cut member isBlock
      have small := Attribute.length_le_of_mem_split isSingle
      have smaller := within.length_le
      have inSingle := Attribute.overlong_of_format_error (by omega) failed
      exact (Attribute.overlong_of_mem_split inSingle isSingle).of_part within
    · simp [pure, Except.pure] at found

/-- Every text is formatted, with NUL and control characters too, unless it has both a placeholder
mark and a run of digits that is too long to be read. -/
theorem exists_format_eq_ok {text : Text} (short : 4 * text.length ≤ 10 ^ Numeral.digitLimit)
    (readable : Mask.mark ∈ text → ∀ run, DigitRun run text → run.length ≤ Numeral.digitLimit)
    (style : Style) : ∃ document, format style text = .ok document := by
  cases found : format style text with
  | ok document => exact ⟨document, rfl⟩
  | error excess =>
      obtain ⟨marked, exceeds, run, inside, length⟩ := overlong_of_format_error short found
      have fits := readable marked run inside
      omega

/-- Look-alikes of placeholders, open literals and brackets, and control characters. -/
theorem exists_format_eq_ok_lookalikes :
    Mask.mark ∈ "[a(\x007\x00 'x, \\\n\"b\"\x000\x00\x7b\x01".toList ∧
      ∃ document, format {} "[a(\x007\x00 'x, \\\n\"b\"\x000\x00\x7b\x01".toList =
        .ok document := by
  have small : 4 * "[a(\x007\x00 'x, \\\n\"b\"\x000\x00\x7b\x01".toList.length ≤
      10 ^ Numeral.digitLimit :=
    Nat.le_trans (by decide : _ ≤ 10 ^ 3) (Nat.pow_le_pow_right (by decide) (by decide))
  refine ⟨by decide, exists_format_eq_ok small ?_ {}⟩
  intro _ run inside
  exact Nat.le_trans inside.1.length_le (by decide)

end Document

/-! ## Every number that is too long makes formatting fail -/

theorem Bead.regap_inStatement_of_isInert {text : Text} (inert : ∀ c ∈ text, Mask.isInert c)
    {before : Option Char} (inertBefore : before.all Mask.isInert) :
    regap inStatement before (ofText false text) = ofText false text := by
  induction text generalizing before with
  | nil => rfl
  | cons c rest ih =>
      have inertHere : (some c).all Mask.isInert := inert c List.mem_cons_self
      obtain ⟨solid, plain, -⟩ := (Mask.isInert_iff c).1 inertHere
      have unneeded : needed before c = false := by
        cases before with
        | none => simp [needed, plain]
        | some d =>
            obtain ⟨-, plainToo, notComma, notBracket, -⟩ := (Mask.isInert_iff d).1 inertBefore
            simp [needed, plain, plainToo, notComma, notBracket]
      rw [ofText_solid solid, regap, inStatement_eq, unneeded, Bool.or_false, Bool.and_false,
        ih (fun d member => inert d (List.mem_cons_of_mem c member)) inertHere]

theorem Bead.keywordGaps_of_isInert {text : Text} (inert : ∀ c ∈ text, Mask.isInert c)
    (word : Text) : keywordGaps word (ofText false text) = ofText false text := by
  induction text generalizing word with
  | nil => rfl
  | cons c rest ih =>
      obtain ⟨solid, -, -, -, notOpening⟩ := (Mask.isInert_iff c).1 (inert c List.mem_cons_self)
      rw [ofText_solid solid, keywordGaps, ih fun d member => inert d (List.mem_cons_of_mem c member)]
      simp [notOpening]

/-- A text to which no rule of spacing applies is left alone. -/
theorem Statement.respace_of_isInert {text : Text} (inert : ∀ c ∈ text, Mask.isInert c) :
    respace text = text := by
  have solid : ∀ c ∈ text, isBlank c = false := fun c member =>
    ((Mask.isInert_iff c).1 (inert c member)).1
  rw [respace_eq, Bead.statementGaps, Bead.regap_inStatement_of_isInert inert rfl,
    Bead.keywordGaps_of_isInert inert, Bead.unlead_ofText_of_solid solid,
    Bead.spell_ofText_of_solid solid]

namespace Mask

/-- The characters of a number and of the marks around it. -/
def isNumberChar (c : Char) : Bool :=
  c = mark || isDecimalDigit c

theorem ne_of_isNumberChar {c d : Char} (number : isNumberChar c) (other : isNumberChar d = false) :
    c ≠ d := by
  rintro rfl
  simp [number] at other

theorem isInert_of_isNumberChar {c : Char} (number : isNumberChar c) : isInert c := by
  have solid : isBlank c = false := by
    cases blank : isBlank c with
    | false => rfl
    | true =>
        simp only [isNumberChar, isDecimalDigit_of_isBlank blank, Bool.or_false,
          decide_eq_true_eq] at number
        rw [number] at blank
        exact absurd blank (by decide)
  have differs (d : Char) (listed : d ∈ ['+', '-', '=', '<', '>', '!', '&', '|', ',', ']', '(']) :
      c ≠ d := by
    rintro rfl
    exact absurd (List.any_eq_true.2 ⟨c, listed, number⟩) (by decide)
  rw [isInert_iff]
  refine ⟨solid, ?_, differs _ (by simp), differs _ (by simp), differs _ (by simp)⟩
  simp only [isOperator, List.contains_eq_mem, decide_eq_false_iff_not]
  intro member
  exact differs c (List.mem_append_left [',', ']', '('] member) rfl

/-- A number between two marks, as a placeholder has it. -/
def lookalike (digits : Text) : Text :=
  mark :: digits ++ [mark]

theorem isNumberChar_of_mem_lookalike {digits : Text} (decimal : digits.all isDecimalDigit) {c : Char}
    (member : c ∈ lookalike digits) : isNumberChar c := by
  simp only [lookalike, List.cons_append, List.mem_cons, List.mem_append, List.not_mem_nil,
    or_false] at member
  rcases member with rfl | digit | rfl
  · rfl
  · simp [isNumberChar, List.all_eq_true.1 decimal c digit]
  · rfl

theorem form?_eq_none_of_isNumberChar {c : Char} (number : isNumberChar c) (rest : Text) :
    Comment.form? (c :: rest) = none := by
  rw [Comment.form?_cons_eq_none_iff, Comment.opens]
  simp [ne_of_isNumberChar number (by decide : isNumberChar '/' = false)]

theorem isQuote_of_isNumberChar {c : Char} (number : isNumberChar c) : isQuote c = false := by
  simp [isQuote, ne_of_isNumberChar number (by decide : isNumberChar '"' = false),
    ne_of_isNumberChar number (by decide : isNumberChar '\'' = false)]

/-- Numbers and marks go on with the unit that they stand in. -/
theorem cutFrom_of_isNumberChar {text : Text} (numbers : ∀ c ∈ text, isNumberChar c)
    (state : CodeUnit.State) : CodeUnit.cutFrom state text = (text, []) := by
  induction text generalizing state with
  | nil =>
      rw [CodeUnit.cutFrom]
      rfl
  | cons c rest ih =>
      have number := numbers c List.mem_cons_self
      have goesOn : state.stopsBefore c = false := by
        simp [CodeUnit.State.stopsBefore,
          ne_of_isNumberChar number (by decide : isNumberChar '\x7b' = false),
          ne_of_isNumberChar number (by decide : isNumberChar '\x7d' = false),
          ne_of_isNumberChar number (by decide : isNumberChar '#' = false)]
      rw [CodeUnit.cutFrom_code (form?_eq_none_of_isNumberChar number rest)
        (isQuote_of_isNumberChar number),
        if_neg (ne_of_isNumberChar number (by decide : isNumberChar '[' = false)), goesOn,
        ih fun d member => numbers d (List.mem_cons_of_mem c member)]
      simp [ne_of_isNumberChar number (by decide : isNumberChar ';' = false)]

theorem lexed_map_code_of_isNumberChar {text : Text} (numbers : ∀ c ∈ text, isNumberChar c) :
    Segment.Lexed (text.map .code) := by
  induction text with
  | nil => trivial
  | cons c rest ih =>
      have number := numbers c List.mem_cons_self
      refine ⟨⟨isQuote_of_isNumberChar number, ?_⟩,
        ih fun d member => numbers d (List.mem_cons_of_mem c member)⟩
      rw [Segment.spell_map_code]
      exact (Comment.form?_cons_eq_none_iff c rest).1 (form?_eq_none_of_isNumberChar number rest)

theorem restore_lookalike {digits : Text} (decimal : digits.all isDecimalDigit)
    (long : Numeral.digitLimit < digits.length) (saved : List Text) :
    restore saved (lookalike digits) = .error ⟨digits.length⟩ := by
  have filled : digits ≠ [] := by
    rintro rfl
    simp at long
  have found := placeholder?_number filled (List.all_eq_true.1 decimal) []
  rw [lookalike, List.cons_append, restore_of_placeholder? found]
  simp [Numeral.ofDigits, long, Bind.bind, Except.bind]

end Mask

/-- A number that is too long cannot be restored behind a literal. -/
theorem Statement.normalize_lookalike {digits : Text} (decimal : digits.all isDecimalDigit)
    (long : Numeral.digitLimit < digits.length) :
    normalize ('"' :: '"' :: Mask.lookalike digits) = .error ⟨digits.length⟩ := by
  have numbers : ∀ c ∈ Mask.lookalike digits, Mask.isNumberChar c :=
    fun c => Mask.isNumberChar_of_mem_lookalike decimal
  have segments : Segment.split ('"' :: '"' :: Mask.lookalike digits) =
      .literal ['"', '"'] [] :: (Mask.lookalike digits).map .code := by
    have lexed : Segment.Lexed (.literal ['"', '"'] [] :: (Mask.lookalike digits).map .code) :=
      ⟨⟨'"', ['"'], rfl, rfl, rfl, .inl rfl⟩, Mask.lexed_map_code_of_isNumberChar numbers⟩
    have split := Segment.split_spell lexed
    rwa [Segment.spell_cons, Segment.spell_map_code] at split
  have shown (text : Text) (next : Nat) :
      Mask.write next ((text.map Segment.code).map Segment.piece) = text := by
    induction text with
    | nil => rfl
    | cons c rest ih => exact congrArg (c :: ·) ih
  have masked : mask ('"' :: '"' :: Mask.lookalike digits) =
      ⟨Mask.placeholder 0 ++ Mask.lookalike digits, [['"', '"']]⟩ := by
    rw [mask, Mask.pieces_closeLiterals, segments, Mask.saved_map_piece]
    simp only [List.map_cons, Segment.piece, Mask.write, shown]
    simp [Segment.hidden, Segment.restored]
  have respaced : respace (Mask.placeholder 0 ++ Mask.lookalike digits) =
      Mask.placeholder 0 ++ Mask.lookalike digits := by
    apply respace_of_isInert
    intro c member
    rcases List.mem_append.1 member with own | other
    · exact Mask.isInert_of_mem own
    · exact Mask.isInert_of_isNumberChar (numbers c other)
  have first : Numeral.ofDigits (Text.ofNat 0) = .ok 0 := by decide
  rw [normalize, masked]
  simp only [respaced, unmask, List.isEmpty_cons]
  rw [if_neg (by simp), Mask.restore_placeholder_append, first]
  simp [Mask.restore_lookalike decimal long, Bind.bind, Except.bind]

/-- Behind a literal, every number that is too long makes formatting fail: no bound on the texts
themselves can take the place of the bound on their numbers. -/
theorem Document.format_lookalike {digits : Text} (decimal : digits.all isDecimalDigit)
    (long : Numeral.digitLimit < digits.length) (style : Style) :
    format style ('"' :: '"' :: Mask.lookalike digits) = .error ⟨digits.length⟩ := by
  have numbers : ∀ c ∈ Mask.lookalike digits, Mask.isNumberChar c :=
    fun c => Mask.isNumberChar_of_mem_lookalike decimal
  have noReturn : '\r' ∉ '"' :: '"' :: Mask.lookalike digits := by
    simp only [List.mem_cons, not_or]
    refine ⟨by decide, by decide, ?_⟩
    intro member
    exact absurd (numbers _ member) (by decide)
  have scanned : Literal.scan '"' false ('"' :: Mask.lookalike digits) =
      ⟨['"'], Mask.lookalike digits, []⟩ := by
    simp [Literal.scan]
  have noComment : Comment.form? ('"' :: '"' :: Mask.lookalike digits) = none := rfl
  have unit : CodeUnit.cut ('"' :: '"' :: Mask.lookalike digits) =
      ('"' :: '"' :: Mask.lookalike digits, []) := by
    rw [CodeUnit.cut, CodeUnit.cutFrom]
    split
    · next opens => simp [noComment] at opens
    · simp [isQuote, scanned, Mask.cutFrom_of_isNumberChar numbers]
  have cut : Span.cut '"' ('"' :: Mask.lookalike digits) =
      (.codeUnit ('"' :: '"' :: Mask.lookalike digits), []) := by
    simp [Span.cut, noComment, unit]
  have spans : Span.split ('"' :: '"' :: Mask.lookalike digits) =
      [.codeUnit ('"' :: '"' :: Mask.lookalike digits)] := by
    have start : ('"' :: '"' :: Mask.lookalike digits).dropWhile isBlank =
        '"' :: '"' :: Mask.lookalike digits := List.dropWhile_cons_of_neg (by decide)
    rw [Span.split]
    split
    · next none => simp [start] at none
    · next c rest same =>
        rw [start] at same
        obtain ⟨rfl, rfl⟩ := List.cons.inj same
        rw [cut, Span.split]
        rfl
  rw [format, tokens, Text.normalizeBreaks_eq_self noReturn, Token.ofSource, spans]
  simp [Token.ofSpansAfter, Token.ofSpan, Token.ofCodeUnit, Statement.normalize_lookalike decimal long,
    Bind.bind, Except.bind]

end IdlFormat
