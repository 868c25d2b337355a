import IdlFormat.Proofs.Breaks
import IdlFormat.Proofs.Directive
import IdlFormat.Proofs.Tracking
import IdlFormat.Proofs.UnitEnd

/-!
# Paragraphs of a clean document

The clean-up works on a whole document, but what it makes of the lines of one token does not depend
on the lines around them: `Clean.ComesTo`. A document can therefore be read again paragraph by
paragraph.
-/

namespace IdlFormat

namespace Text

theorem trimEnd_append_trimEnd (left right : Text) :
    trimEnd (left ++ right.trimEnd) = trimEnd (left ++ right) := by
  induction left with
  | nil => exact trimEnd_trimEnd right
  | cons c left ih => rw [List.cons_append, List.cons_append, trimEnd_cons, trimEnd_cons, ih]

end Text

namespace Clean

/-- The text of lines, each of them with its line break. -/
def unlines (lines : List Text) : Text :=
  lines.flatMap (· ++ ['\n'])

/-- The clean form of a text behind a number of line breaks, without the blanks at its end. -/
def settle (breaks : Nat) (text : Text) : Text :=
  (capBreaksFrom breaks (trimLineEnds text)).trimEnd

variable {lines others : List Text} {paragraph : Text}

@[simp]
theorem unlines_append (lines others : List Text) :
    unlines (lines ++ others) = unlines lines ++ unlines others :=
  List.flatMap_append

theorem unlines_eq (line : Text) (lines : List Text) :
    unlines (line :: lines) = Text.joinLines (line :: lines) ++ ['\n'] := by
  induction lines generalizing line with
  | nil => exact List.append_nil _
  | cons next lines ih =>
      have rest : unlines (line :: next :: lines) = line ++ ['\n'] ++ unlines (next :: lines) := rfl
      rw [rest, ih, Text.joinLines_cons_cons]
      simp

theorem trimLineEnds_append_break (left right : Text) :
    trimLineEnds (left ++ '\n' :: right) = trimLineEnds left ++ '\n' :: trimLineEnds right := by
  induction left with
  | nil => rfl
  | cons c left ih =>
      rw [List.cons_append, trimLineEnds_cons, trimLineEnds_cons, ih]
      cases trimLineEnds left with
      | nil => simp [apply_ite]; split <;> simp
      | cons d rest => simp [apply_ite]; split <;> simp

theorem settle_break (breaks : Nat) (text : Text) :
    settle breaks ('\n' :: text) =
      Text.trimEnd ((if breaks < 2 then ['\n'] else []) ++
        settle (if breaks < 2 then breaks + 1 else breaks) text) := by
  have cleaned : trimLineEnds ('\n' :: text) = '\n' :: trimLineEnds text := rfl
  rw [settle, cleaned, capBreaksFrom, if_pos rfl, settle]
  split
  · exact (Text.trimEnd_append_trimEnd ['\n'] _).symm
  · exact (Text.trimEnd_append_trimEnd [] _).symm

theorem trimEnd_settle (breaks : Nat) (text : Text) :
    Text.trimEnd (settle breaks text) = settle breaks text :=
  Text.trimEnd_trimEnd _

/-- A text that settles to something does so behind other text. -/
theorem trimEnd_append_settle {breaks : Nat} {text : Text} (filled : settle breaks text ≠ [])
    (before : Text) : Text.trimEnd (before ++ settle breaks text) = before ++ settle breaks text := by
  have kept := trimEnd_settle breaks text
  rw [Text.trimEnd_append (by rw [kept]; exact filled), kept]

/-- What lines come to in a clean document, whatever stands around them. -/
def ComesTo (lines : List Text) (paragraph : Text) : Prop :=
  ∀ breaks rest, capBreaksFrom breaks (trimLineEnds (unlines lines ++ rest)) =
    paragraph ++ '\n' :: capBreaksFrom (if paragraph.getLast? = some '\n' then 2 else 1)
      (trimLineEnds rest)

/-- The number of line breaks behind a paragraph. -/
def breaksBehind (paragraph : Text) : Nat :=
  if paragraph.getLast? = some '\n' then 2 else 1

theorem ComesTo.settle_append (comesTo : ComesTo lines paragraph) (breaks : Nat) (rest : Text) :
    settle breaks (unlines lines ++ rest) =
      Text.trimEnd (paragraph ++ '\n' :: settle (breaksBehind paragraph) rest) := by
  rw [settle, comesTo, settle, ← List.singleton_append,
    ← @List.singleton_append _ '\n' (Text.trimEnd _),
    ← List.append_assoc, ← List.append_assoc, Text.trimEnd_append_trimEnd]
  rfl

theorem ComesTo.settle_eq (comesTo : ComesTo lines paragraph) (breaks : Nat) :
    settle breaks (unlines lines) = paragraph.trimEnd := by
  have whole := comesTo.settle_append breaks []
  rw [List.append_nil] at whole
  rw [whole]
  exact (Text.trimEnd_append_trimEnd paragraph ['\n']).symm.trans
    (by rw [show Text.trimEnd ['\n'] = [] by decide, List.append_nil])

theorem capBreaksFrom_of_starts {text : Text} (starts : text.head? ≠ some '\n') (breaks : Nat) :
    capBreaksFrom breaks text = capBreaks text := by
  cases text with
  | nil => rfl
  | cons c rest =>
      have inLine : c ≠ '\n' := by simpa using starts
      rw [capBreaks, capBreaksFrom, capBreaksFrom, if_neg inLine, if_neg inLine]

/-- Lines come to their own clean text, if it neither starts nor ends with a line break. -/
theorem comesTo_of_inLine {line front : Text} {c : Char} (inLine : c ≠ '\n')
    (cleaned : trimLineEnds (Text.joinLines (line :: lines)) = front ++ [c])
    (starts : front.head? ≠ some '\n') :
    ComesTo (line :: lines) (capBreaks (front ++ [c])) := by
  intro breaks rest
  have own : capBreaks (front ++ [c]) = capBreaks front ++ [c] :=
    capBreaksFrom_append_cons inLine 0 front []
  rw [unlines_eq, List.append_assoc, List.singleton_append, trimLineEnds_append_break, cleaned,
    List.append_assoc, List.singleton_append, capBreaksFrom_append_cons inLine,
    capBreaksFrom_of_starts starts, own, List.getLast?_concat, if_neg (by simpa using inLine)]
  simp [capBreaksFrom]

/-- The same where the text ends in a single line break. -/
theorem comesTo_of_break {line front : Text} {c : Char} (inLine : c ≠ '\n')
    (cleaned : trimLineEnds (Text.joinLines (line :: lines)) = front ++ [c, '\n'])
    (starts : front.head? ≠ some '\n') :
    ComesTo (line :: lines) (capBreaks (front ++ [c, '\n'])) := by
  intro breaks rest
  have own : capBreaks (front ++ [c, '\n']) = capBreaks front ++ [c] ++ ['\n'] := by
    rw [List.append_assoc]
    exact capBreaksFrom_append_cons inLine 0 front ['\n']
  rw [unlines_eq, List.append_assoc, List.singleton_append, trimLineEnds_append_break, cleaned,
    List.append_assoc, List.cons_append, List.singleton_append, capBreaksFrom_append_cons inLine,
    capBreaksFrom_of_starts starts, own, List.getLast?_concat, if_pos rfl]
  simp [capBreaksFrom]

theorem trimEnd_capBreaksFrom_append_break (breaks : Nat) (text : Text) :
    Text.trimEnd (capBreaksFrom breaks (text ++ ['\n'])) =
      Text.trimEnd (capBreaksFrom breaks text) := by
  induction text generalizing breaks with
  | nil =>
      simp only [List.nil_append, capBreaksFrom, if_true]
      split <;> rfl
  | cons c rest ih =>
      rw [List.cons_append, capBreaksFrom, capBreaksFrom]
      split
      · split
        · rw [Text.trimEnd_cons, Text.trimEnd_cons, ih]
        · exact ih breaks
      · rw [Text.trimEnd_cons, Text.trimEnd_cons, ih]

theorem settle_append_break (breaks : Nat) (text : Text) :
    settle breaks (text ++ ['\n']) = settle breaks text := by
  rw [settle, trimLineEnds_append_break]
  exact trimEnd_capBreaksFrom_append_break breaks (trimLineEnds text)

/-- The document that lines are put together to. -/
theorem finalize_joinLines (lines : List Text) :
    finalize (Text.joinLines lines) = (settle 0 (unlines lines)).dropWhile (· = '\n') ++ ['\n'] := by
  have dropped (text : Text) :
      Text.trimEnd (text.dropWhile (· = '\n')) = text.trimEnd.dropWhile (· = '\n') := by
    induction text with
    | nil => rfl
    | cons c rest ih =>
        rw [Text.trimEnd_cons]
        by_cases isBreak : c = '\n'
        · subst isBreak
          rw [List.dropWhile_cons_of_pos (by simp), ih]
          cases Text.trimEnd rest <;> simp
        · rw [List.dropWhile_cons_of_neg (by simpa using isBreak), Text.trimEnd_cons]
          split
          · rfl
          · rw [List.dropWhile_cons_of_neg (by simpa using isBreak)]
  have whole : settle 0 (unlines lines) =
      Text.trimEnd (capBreaks (trimLineEnds (Text.joinLines lines))) := by
    cases lines with
    | nil => rfl
    | cons line lines =>
        rw [unlines_eq]
        exact settle_append_break 0 _
  rw [finalize, dropped, whole]

end Clean

namespace Token

/-- What the layout of the other tokens takes from a token. -/
structure Outline where
  /-- The kind of the token. -/
  kind : Kind
  /-- Whether it heads the body of an enumeration. -/
  headsEnum : Bool
  /-- Whether it is the statement of a member. -/
  isMember : Bool
deriving DecidableEq

/-- The outline of a token. -/
def outline (token : Token) : Outline where
  kind := token.kind
  headsEnum := token.headsEnum
  isMember := token.kind = .statement && Statement.isMember token.text

theorem insideEnumFrom_outline {before others : List Token}
    (same : before.map outline = others.map outline) (depth : Nat) :
    insideEnumFrom depth before = insideEnumFrom depth others := by
  induction before generalizing others depth with
  | nil =>
      rw [List.map_nil, eq_comm, List.map_eq_nil_iff] at same
      rw [same]
  | cons token before ih =>
      cases others with
      | nil => simp at same
      | cons other others =>
          simp only [List.map_cons, List.cons.injEq] at same
          have kind : token.kind = other.kind := congrArg Outline.kind same.1
          have heads : before.head?.any headsEnum = others.head?.any headsEnum := by
            have first := congrArg List.head? same.2
            rw [List.head?_map, List.head?_map] at first
            cases found : before.head? <;> cases foundToo : others.head? <;>
              simp_all [outline]
          unfold insideEnumFrom
          rw [← kind]
          split
          · exact ih same.2 _
          · exact heads
          · exact ih same.2 _
          · exact ih same.2 _

end Token

namespace Layout

open Token (outline)

variable {style : Style} {level : Nat} {row tokens : List Token} {previous : Option Token}

/-- The lines of tokens at one level, without the blank lines between them. -/
def rowLines (style : Style) (level : Nat) : List Token → Except Numeral.TooLong (List Text)
  | [] => .ok []
  | token :: tokens => do
      let own ← tokenLines style level token
      let rest ← rowLines style level tokens
      return own ++ rest

/-- The level behind tokens. -/
def levelBehind (level : Nat) (row : List Token) : Nat :=
  row.foldl nextLevel level

/-- Whether a blank line stands before the first of some tokens. -/
def breaksBefore (level : Nat) (previous : Option Token) (row : List Token) : Bool :=
  row.head?.any (blankBefore level previous)

/-- Whether a blank line stands between some tokens and those behind them. -/
def breaksBetween (level : Nat) (row tokens : List Token) : Bool :=
  row.getLast?.any fun last => tokens.head?.any (blankBetween level last)

/-- The tokens of one span: a single token, or the members of a list. -/
def IsRow (row : List Token) : Prop :=
  (∃ token, row = [token]) ∨ row ≠ [] ∧ ∀ token ∈ row, token.kind = .statement

/-- The blank line that is shown, or none. -/
def blankLine (shown : Bool) : List Text :=
  if shown then [[]] else []

theorem blankBetween_statement {token : Token} (statement : token.kind = .statement)
    (next : Token) : blankBetween level token next = false := by
  rw [blankBetween, statement]

theorem blankBefore_statement {token : Token} (statement : token.kind = .statement) :
    blankBefore level previous token = false := by
  simp [blankBefore, statement]

theorem nextLevel_statement {token : Token} (statement : token.kind = .statement) :
    nextLevel level token = level := by
  rw [nextLevel, statement]

theorem rowLines_cons (token : Token) (row : List Token) {lines : List Text} :
    rowLines style level (token :: row) = .ok lines ↔
      ∃ own rest, tokenLines style level token = .ok own ∧ rowLines style level row = .ok rest ∧
        lines = own ++ rest := by
  simp only [rowLines, bind_eq_ok_iff]
  constructor
  · rintro ⟨own, printed, rest, later, same⟩
    exact ⟨own, rest, printed, later, (Except.ok.inj same).symm⟩
  · rintro ⟨own, rest, printed, later, rfl⟩
    exact ⟨own, printed, rest, later, rfl⟩

theorem rowLines_single (token : Token) :
    rowLines style level [token] = tokenLines style level token := by
  simp only [rowLines]
  cases tokenLines style level token with
  | error excess => rfl
  | ok own => exact congrArg Except.ok (List.append_nil own)

theorem linesFrom_cons (token : Token) (tokens : List Token) {lines : List Text} :
    linesFrom style level previous (token :: tokens) = .ok lines ↔
      ∃ own rest, tokenLines style level token = .ok own ∧
        linesFrom style (nextLevel level token) (some token) tokens = .ok rest ∧
        lines = blankLine (blankBefore level previous token) ++ own ++
          blankLine (tokens.head?.any (blankBetween level token)) ++ rest := by
  simp only [linesFrom, bind_eq_ok_iff]
  constructor
  · rintro ⟨own, printed, rest, later, same⟩
    exact ⟨own, rest, printed, later, (Except.ok.inj same).symm⟩
  · rintro ⟨own, rest, printed, later, rfl⟩
    exact ⟨own, printed, rest, later, rfl⟩

/-- The lines of a row stand together, maybe with a blank line before and behind them. -/
theorem linesFrom_row (isRow : IsRow row) {lines : List Text} :
    linesFrom style level previous (row ++ tokens) = .ok lines ↔
      ∃ own rest, rowLines style level row = .ok own ∧
        linesFrom style (levelBehind level row) row.getLast? tokens = .ok rest ∧
        lines = blankLine (breaksBefore level previous row) ++ own ++
          blankLine (breaksBetween level row tokens) ++ rest := by
  have single (token : Token) (previous : Option Token) (lines : List Text) :
      linesFrom style level previous ([token] ++ tokens) = .ok lines ↔
        ∃ own rest, rowLines style level [token] = .ok own ∧
          linesFrom style (levelBehind level [token]) [token].getLast? tokens = .ok rest ∧
          lines = blankLine (breaksBefore level previous [token]) ++ own ++
            blankLine (breaksBetween level [token] tokens) ++ rest := by
    rw [List.singleton_append, linesFrom_cons, rowLines_single]
    rfl
  rcases isRow with ⟨token, rfl⟩ | ⟨filled, statements⟩
  · exact single token previous lines
  · induction row generalizing previous lines with
    | nil => exact absurd rfl filled
    | cons token row ih =>
        cases row with
        | nil => exact single token previous lines
        | cons next row =>
            have statement := statements token List.mem_cons_self
            have nextStatement := statements next (List.mem_cons_of_mem _ List.mem_cons_self)
            have first : breaksBefore level previous (token :: next :: row) = false :=
              blankBefore_statement statement
            have second : breaksBefore level (some token) (next :: row) = false :=
              blankBefore_statement nextStatement
            have later (lines : List Text) := @ih (some token) lines (List.cons_ne_nil _ _)
              fun other member => statements other (List.mem_cons_of_mem _ member)
            have same : levelBehind level (token :: next :: row) =
              levelBehind level (next :: row) := by
              rw [levelBehind, List.foldl_cons, nextLevel_statement statement]
              rfl
            have last : (token :: next :: row).getLast? = (next :: row).getLast? :=
              List.getLast?_cons_cons
            have between : breaksBetween level (token :: next :: row) tokens =
                breaksBetween level (next :: row) tokens := by
              rw [breaksBetween, last]
              rfl
            have none : blankBefore level previous token = false := blankBefore_statement statement
            have noneBetween : (next :: row ++ tokens).head?.any (blankBetween level token) = false :=
              blankBetween_statement statement next
            rw [List.cons_append, linesFrom_cons, none, noneBetween, first, same, last, between,
              nextLevel_statement statement]
            constructor
            · rintro ⟨own, rest, printed, others, rfl⟩
              obtain ⟨more, behind, printedToo, following, rfl⟩ := (later _).1 others
              refine ⟨own ++ more, behind,
                (rowLines_cons _ _).2 ⟨own, more, printed, printedToo, rfl⟩,
                following, ?_⟩
              rw [second]
              simp [blankLine]
            · rintro ⟨whole, behind, printed, following, rfl⟩
              obtain ⟨own, more, printedOwn, printedToo, rfl⟩ := (rowLines_cons _ _).1 printed
              refine ⟨own, _, printedOwn, (later _).2 ⟨more, behind, printedToo, following, rfl⟩, ?_⟩
              rw [second]
              simp [blankLine]

section Outline

variable {token other : Token} {others : List Token} {before : Option Token}

theorem nextLevel_outline (same : token.outline = other.outline) (level : Nat) :
    nextLevel level token = nextLevel level other := by
  have kind : token.kind = other.kind := congrArg Token.Outline.kind same
  rw [nextLevel, nextLevel, kind]

theorem levelBehind_outline (same : row.map outline = others.map outline) (level : Nat) :
    levelBehind level row = levelBehind level others := by
  induction row generalizing others level with
  | nil =>
      rw [List.map_nil, eq_comm, List.map_eq_nil_iff] at same
      rw [same]
  | cons token row ih =>
      cases others with
      | nil => simp at same
      | cons other others =>
          simp only [List.map_cons, List.cons.injEq] at same
          have later := ih same.2 (nextLevel level token)
          rw [nextLevel_outline same.1] at later
          rw [levelBehind, List.foldl_cons, nextLevel_outline same.1]
          exact later

theorem blankBefore_outline (same : token.outline = other.outline)
    (samePrevious : previous.map outline = before.map outline) :
    blankBefore level previous token = blankBefore level before other := by
  have kind : token.kind = other.kind := congrArg Token.Outline.kind same
  have member : (previous.any fun token => token.kind = .statement && Statement.isMember token.text) =
      before.any fun token => token.kind = .statement && Statement.isMember token.text := by
    have through (previous : Option Token) :
        (previous.any fun token => token.kind = .statement && Statement.isMember token.text) =
          (previous.map outline).any Token.Outline.isMember := by
      cases previous <;> rfl
    rw [through, samePrevious, ← through]
  rw [blankBefore, blankBefore, kind, member]

theorem blankBetween_outline {next following : Token} (same : token.outline = other.outline)
    (sameNext : next.outline = following.outline) :
    blankBetween level token next = blankBetween level other following := by
  have kind : token.kind = other.kind := congrArg Token.Outline.kind same
  have nextKind : next.kind = following.kind := congrArg Token.Outline.kind sameNext
  rw [blankBetween, blankBetween, kind, nextKind, nextLevel_outline same]

/-- Rows with the same outlines have the same blank lines around them. -/
theorem breaksBefore_outline (same : row.map outline = others.map outline)
    (samePrevious : previous.map outline = before.map outline) :
    breaksBefore level previous row = breaksBefore level before others := by
  cases row <;> cases others
  · rfl
  · simp at same
  · simp at same
  · simp only [List.map_cons, List.cons.injEq] at same
    exact blankBefore_outline same.1 samePrevious

theorem breaksBetween_outline {following : List Token} (same : row.map outline = others.map outline)
    (sameBehind : tokens.map outline = following.map outline) :
    breaksBetween level row tokens = breaksBetween level others following := by
  have last := congrArg List.getLast? same
  have first := congrArg List.head? sameBehind
  rw [List.getLast?_map, List.getLast?_map] at last
  rw [List.head?_map, List.head?_map] at first
  rw [breaksBetween, breaksBetween]
  generalize row.getLast? = final at last
  generalize others.getLast? = finalToo at last
  generalize tokens.head? = next at first
  generalize following.head? = nextToo at first
  cases final <;> cases finalToo <;> cases next <;> cases nextToo <;> simp_all
  exact blankBetween_outline last first

end Outline

end Layout

namespace Span

open Clean (ComesTo settle unlines)
open Token (outline insideEnumFrom)
open Layout (rowLines)

/-- The rules that cut spans. -/
inductive Rule where
  /-- For comments. -/
  | comment
  /-- For directives. -/
  | directive
  /-- For blocks in square brackets. -/
  | attributeBlock
  /-- For opening braces. -/
  | braceOpen
  /-- For closing braces. -/
  | braceClose
  /-- For units of code. -/
  | codeUnit
deriving DecidableEq

/-- The rule that cut a span. -/
def rule : Span → Rule
  | .comment _ _ => .comment
  | .directive _ => .directive
  | .attributeBlock _ => .attributeBlock
  | .braceOpen => .braceOpen
  | .braceClose _ _ => .braceClose
  | .codeUnit _ => .codeUnit

theorem closesBody_rule {spans others : List Span}
    (same : spans.head?.map rule = others.head?.map rule) : closesBody spans = closesBody others := by
  cases spans with
  | nil => cases others <;> simp_all [closesBody]
  | cons span spans =>
      cases others with
      | nil => simp at same
      | cons other others => cases span <;> cases other <;> simp_all [closesBody, rule]

/-- In front of a text the paragraph of a span is cut off as one span again, by the same rule, and
gives tokens with the same outlines and with lines of their own. -/
def ReadAgain (style : Style) (before : List Token) (closes : Bool) (span : Span) (level : Nat)
    (row : List Token) (paragraph more : Text) (settled : List Text → Prop) : Prop :=
  ∃ again, split (paragraph ++ more) = again :: split more ∧ again.rule = span.rule ∧
    ∀ earlier, insideEnumFrom 0 earlier = insideEnumFrom 0 before →
      ∃ rowAgain own, Token.ofSpan earlier closes again = .ok rowAgain ∧
        rowAgain.map outline = row.map outline ∧
        rowLines style level rowAgain = .ok own ∧ settled own

/-- The lines of a span are read again as a span with lines that come to the same paragraph. Behind
the last span of a text the paragraph loses the blanks at its end and gets a line break. -/
def Returns (style : Style) (before : List Token) (closes : Bool) (span : Span) (after : Text) :
    Prop :=
  ∀ level row lines, Token.ofSpan before closes span = .ok row →
    rowLines style level row = .ok lines →
    (split after ≠ [] → ∃ paragraph, ComesTo lines paragraph ∧
      ∀ more, (split more).head?.map rule = (split after).head?.map rule →
        ReadAgain style before closes span level row paragraph ('\n' :: more)
          (ComesTo · paragraph)) ∧
    (split after = [] → ∃ last, (∀ breaks, settle breaks (unlines lines) = last) ∧
      ReadAgain style before closes span level row last ['\n']
        fun own => ∀ breaks, settle breaks (unlines own) = last)

/-- Each span of a text returns, where `before` holds the tokens in front of it, last first. -/
inductive Steady (style : Style) : List Token → Text → Prop
  /-- A blank text has no spans. -/
  | blank {before : List Token} {text : Text} (none : text.dropWhile isBlank = []) :
      Steady style before text
  /-- The first span returns, and so do those behind it. -/
  | span {before : List Token} {text rest : Text} {c : Char}
      (start : text.dropWhile isBlank = c :: rest)
      (returns : Returns style before (closesBody (split (cut c rest).2)) (cut c rest).1
        (cut c rest).2)
      (later : ∀ row, Token.ofSpan before (closesBody (split (cut c rest).2)) (cut c rest).1 =
        .ok row → Steady style (row.reverse ++ before) (cut c rest).2) :
      Steady style before text

theorem split_blank_append {blanks : Text} (blank : blanks.all isBlank) (text : Text) :
    split (blanks ++ text) = split text := by
  have dropped : (blanks ++ text).dropWhile isBlank = text.dropWhile isBlank :=
    List.dropWhile_append_of_pos (List.all_eq_true.1 blank)
  rw [split, split]
  split <;> rename_i found <;> rw [dropped] at found
  · split
    · rfl
    · next other => rw [found] at other; cases other
  · split
    · next other => rw [found] at other; cases other
    · next other =>
        rw [found] at other
        cases other
        rfl

theorem split_of_start {text rest : Text} {c : Char} (start : text.dropWhile isBlank = c :: rest) :
    split text = (cut c rest).1 :: split (cut c rest).2 := by
  rw [split]
  split
  · next found => rw [start] at found; cases found
  · next found =>
      rw [start] at found
      cases found
      rfl

theorem split_eq_nil_of_dropWhile {text : Text} (none : text.dropWhile isBlank = []) :
    split text = [] := by
  rw [split]
  split
  · rfl
  · next found => rw [none] at found; cases found

theorem split_break : split ['\n'] = [] :=
  split_eq_nil_of_dropWhile (by decide)

end Span

namespace Layout

open Clean (ComesTo settle unlines)

theorem breaksBetween_nil (level : Nat) (row : List Token) : breaksBetween level row [] = false := by
  rw [breaksBetween]
  cases row.getLast? <;> rfl

/-- A blank line that is shown is one line break more. -/
theorem settle_blankLine (shown : Bool) (breaks : Nat) :
    ∃ lead more, List.all lead (· = '\n') ∧ ∀ text,
      settle breaks (unlines (blankLine shown) ++ text) =
        Text.trimEnd (lead ++ settle more text) := by
  cases shown with
  | false => exact ⟨[], breaks, rfl, fun text => (Clean.trimEnd_settle breaks text).symm⟩
  | true =>
      refine ⟨_, _, ?_, Clean.settle_break breaks⟩
      split <;> rfl

end Layout

namespace Token

open Clean (ComesTo settle unlines)
open Layout (linesFrom rowLines levelBehind breaksBefore breaksBetween blankLine)
open IdlFormat.Span (rule Steady)

theorem exists_eq_append_of_ofSpansAfter {before result : List Token} {spans : List Span}
    (found : ofSpansAfter before spans = .ok result) :
    ∃ tokens, result = before.reverse ++ tokens := by
  induction spans generalizing before with
  | nil =>
      obtain rfl := Except.ok.inj found
      exact ⟨[], (List.append_nil _).symm⟩
  | cons span spans ih =>
      rw [ofSpansAfter] at found
      obtain ⟨row, own, later⟩ := bind_eq_ok_iff.1 found
      obtain ⟨tokens, rfl⟩ := ih later
      exact ⟨row ++ tokens, by simp⟩

theorem isRow_of_ofSpan {before row : List Token} {closes : Bool} {span : Span}
    (found : ofSpan before closes span = .ok row) : Layout.IsRow row := by
  have single {token : Token} (found : Except.ok (ε := Numeral.TooLong) [token] = .ok row) :
      Layout.IsRow row :=
    .inl ⟨token, (Except.ok.inj found).symm⟩
  cases span with
  | comment form text => cases form <;> exact single found
  | codeUnit text =>
      rw [ofSpan, ofCodeUnit] at found
      obtain ⟨normalized, -, found⟩ := bind_eq_ok_iff.1 found
      split at found
      · exact single found
      · dsimp only at found
        generalize (if insideEnumFrom 0 before = true then
          EnumMember.split (!closes) normalized else []) = members at found
        split at found
        · exact single found
        · next filled =>
            obtain rfl := Except.ok.inj found
            refine .inr ⟨by simpa using filled, fun token member => ?_⟩
            obtain ⟨text, -, rfl⟩ := List.mem_map.1 member
            rfl
  | _ => exact single found

/-- What is read again behind tokens that were read again. -/
structure ReadAlike (style : Style) (before : List Token) (level : Nat) (previous : Option Token)
    (tokens : List Token) (lines : List Text) (spans : List Span) (text : Text) : Prop where
  /-- The spans are cut by the same rules. -/
  rules : (Span.split text).map rule = spans.map rule
  /-- The tokens have the same outlines, and their lines settle to the same text. -/
  tokens : ∀ earlier, earlier.map outline = before.map outline →
    ∃ again, ofSpansAfter earlier (Span.split text) = .ok (earlier.reverse ++ again) ∧
      again.map outline = tokens.map outline ∧
      ∀ latest, latest.map outline = previous.map outline →
        ∃ others, linesFrom style level latest again = .ok others ∧
          ∀ breaks, settle breaks (unlines others) = settle breaks (unlines lines)

section Step

variable {style : Style} {before row tokens : List Token} {level : Nat} {previous : Option Token}
  {span : Span} {spans : List Span} {own lines : List Text}

theorem all_isBlank_of_breaks {lead : Text} (breaks : lead.all (· = '\n')) : lead.all isBlank := by
  rw [List.all_eq_true] at breaks ⊢
  intro c member
  have isBreak : c = '\n' := by simpa using breaks c member
  rw [isBreak]
  decide

theorem ofSpansAfter_cons {again : List Token}
    (first : ofSpan before (Span.closesBody spans) span = .ok row)
    (later : ofSpansAfter (row.reverse ++ before) spans =
      .ok ((row.reverse ++ before).reverse ++ again)) :
    ofSpansAfter before (span :: spans) = .ok (before.reverse ++ (row ++ again)) := by
  rw [ofSpansAfter, first]
  show ofSpansAfter (row.reverse ++ before) spans = _
  rw [later]
  simp

/-- Rows that are alike have lines that settle to the same text, if their own lines do and those
behind them. -/
theorem exists_linesFrom_again {again rowAgain : List Token} {ownAgain linesAgain : List Text}
    {latest : Option Token} (isRow : Layout.IsRow rowAgain)
    (sameRow : rowAgain.map outline = row.map outline)
    (sameBehind : again.map outline = tokens.map outline)
    (samePrevious : latest.map outline = previous.map outline)
    (printed : rowLines style level rowAgain = .ok ownAgain)
    (printedBehind : linesFrom style (levelBehind level row) rowAgain.getLast? again =
      .ok linesAgain)
    (settled : ∀ breaks,
      settle breaks (unlines ownAgain ++
          (unlines (blankLine (breaksBetween level row tokens)) ++ unlines linesAgain)) =
        settle breaks (unlines own ++
          (unlines (blankLine (breaksBetween level row tokens)) ++ unlines lines))) :
    ∃ others, linesFrom style level latest (rowAgain ++ again) = .ok others ∧
      ∀ breaks, settle breaks (unlines others) =
        settle breaks (unlines (blankLine (breaksBefore level previous row) ++ own ++
          blankLine (breaksBetween level row tokens) ++ lines)) := by
  rw [← Layout.levelBehind_outline sameRow] at printedBehind
  refine ⟨_, (Layout.linesFrom_row isRow).2 ⟨ownAgain, linesAgain, printed, printedBehind, rfl⟩,
    fun breaks => ?_⟩
  rw [Layout.breaksBefore_outline sameRow samePrevious,
    Layout.breaksBetween_outline sameRow sameBehind]
  obtain ⟨lead, more, -, settling⟩ := Layout.settle_blankLine (breaksBefore level previous row) breaks
  simp only [Clean.unlines_append, List.append_assoc, settling, settled]

/-- The last span is read again, and nothing behind it. -/
theorem readAlike_last (previous : Option Token) {last : Text}
    (settled : ∀ breaks, settle breaks (unlines own) = last)
    (again : Span.ReadAgain style before true span level row last ['\n']
      fun own => ∀ breaks, settle breaks (unlines own) = last) (breaks : Nat) :
    ReadAlike style before level previous row (blankLine (breaksBefore level previous row) ++ own)
      [span]
      (settle breaks (unlines (blankLine (breaksBefore level previous row) ++ own)) ++ ['\n']) := by
  obtain ⟨spanAgain, cut, sameRule, reread⟩ := again
  rw [Span.split_break] at cut
  have filled : last ≠ [] := by
    rintro rfl
    rw [List.nil_append, Span.split_break] at cut
    cases cut
  obtain ⟨lead, more, leading, settling⟩ :=
    Layout.settle_blankLine (breaksBefore level previous row) breaks
  have document : settle breaks (unlines (blankLine (breaksBefore level previous row) ++ own)) =
      lead ++ last := by
    have behind : settle more (unlines own) ≠ [] := by rwa [settled more]
    have kept := Clean.trimEnd_append_settle behind lead
    rw [Clean.unlines_append, settling, kept, settled]
  have spans : Span.split (settle breaks
      (unlines (blankLine (breaksBefore level previous row) ++ own)) ++ ['\n']) = [spanAgain] := by
    rw [document, List.append_assoc, Span.split_blank_append (all_isBlank_of_breaks leading), cut]
  refine ⟨by rw [spans]; simp [sameRule], fun earlier sameBefore => ?_⟩
  obtain ⟨rowAgain, ownAgain, found, sameRow, printed, settledAgain⟩ :=
    reread earlier (insideEnumFrom_outline sameBefore 0)
  refine ⟨rowAgain ++ [], ?_, by rw [List.append_nil, sameRow], fun latest samePrevious => ?_⟩
  · rw [spans]
    exact ofSpansAfter_cons found (by rw [ofSpansAfter, List.append_nil])
  · have settledRow (breaks : Nat) :
        settle breaks (unlines ownAgain ++
            (unlines (blankLine (breaksBetween level row [])) ++ unlines [])) =
          settle breaks (unlines own ++
            (unlines (blankLine (breaksBetween level row [])) ++ unlines [])) := by
      rw [Layout.breaksBetween_nil]
      show settle breaks (unlines ownAgain ++ []) = settle breaks (unlines own ++ [])
      rw [List.append_nil, List.append_nil, settledAgain, settled]
    obtain ⟨others, found, settling⟩ :=
      exists_linesFrom_again (isRow_of_ofSpan found) sameRow rfl samePrevious printed rfl settledRow
    refine ⟨others, found, fun breaks => ?_⟩
    rw [settling, Layout.breaksBetween_nil]
    simp [blankLine]

/-- A span is read again in front of others that are read again. -/
theorem readAlike_cons {paragraph : Text} (comesTo : ComesTo own paragraph) (filled : spans ≠ [])
    (again : ∀ more, (Span.split more).head?.map rule = spans.head?.map rule →
      Span.ReadAgain style before (Span.closesBody spans) span level row paragraph ('\n' :: more)
        (ComesTo · paragraph))
    (later : ∀ breaks, ReadAlike style (row.reverse ++ before) (levelBehind level row) row.getLast?
      tokens lines spans (settle breaks (unlines lines) ++ ['\n'])) (breaks : Nat) :
    ReadAlike style before level previous (row ++ tokens)
      (blankLine (breaksBefore level previous row) ++ own ++
        blankLine (breaksBetween level row tokens) ++ lines)
      (span :: spans)
      (settle breaks (unlines (blankLine (breaksBefore level previous row) ++ own ++
        blankLine (breaksBetween level row tokens) ++ lines)) ++ ['\n']) := by
  obtain ⟨lead, more, leading, settling⟩ :=
    Layout.settle_blankLine (breaksBefore level previous row) breaks
  obtain ⟨gap, behind, gapBreaks, settlingGap⟩ := Layout.settle_blankLine
    (breaksBetween level row tokens) (Clean.breaksBehind paragraph)
  have rest := later behind
  have filledRest : settle behind (unlines lines) ≠ [] := by
    intro none
    have rules := rest.rules
    rw [none, List.nil_append, Span.split_break, List.map_nil, eq_comm, List.map_eq_nil_iff] at rules
    exact filled rules
  have document : settle breaks (unlines (blankLine (breaksBefore level previous row) ++ own ++
        blankLine (breaksBetween level row tokens) ++ lines)) =
      lead ++ (paragraph ++ '\n' :: (gap ++ settle behind (unlines lines))) := by
    have kept := Clean.trimEnd_append_settle filledRest
    simp only [Clean.unlines_append, List.append_assoc, settling, comesTo.settle_append, settlingGap,
      kept]
    rw [← List.singleton_append, ← List.append_assoc, ← List.append_assoc, kept,
      Text.trimEnd_append (by rw [kept]; simp), kept]
  have cutBehind : Span.split (gap ++ (settle behind (unlines lines) ++ ['\n'])) =
      Span.split (settle behind (unlines lines) ++ ['\n']) :=
    Span.split_blank_append (all_isBlank_of_breaks gapBreaks) _
  have sameHead : (Span.split (gap ++ (settle behind (unlines lines) ++ ['\n']))).head?.map rule =
      spans.head?.map rule := by
    rw [cutBehind, ← List.head?_map, rest.rules, List.head?_map]
  obtain ⟨spanAgain, cut, sameRule, reread⟩ := again _ sameHead
  have breakBehind (text : Text) : Span.split ('\n' :: text) = Span.split text :=
    Span.split_blank_append (by decide : ['\n'].all isBlank) text
  have cutWhole : Span.split (settle breaks (unlines (blankLine (breaksBefore level previous row) ++
      own ++ blankLine (breaksBetween level row tokens) ++ lines)) ++ ['\n']) =
        spanAgain :: Span.split (settle behind (unlines lines) ++ ['\n']) := by
    rw [document, List.append_assoc, Span.split_blank_append (all_isBlank_of_breaks leading),
      List.append_assoc, List.cons_append, List.append_assoc, cut, breakBehind, cutBehind]
  refine ⟨by rw [cutWhole, List.map_cons, List.map_cons, sameRule, rest.rules],
    fun earlier sameBefore => ?_⟩
  obtain ⟨rowAgain, ownAgain, found, sameRow, printed, comesToAgain⟩ :=
    reread earlier (insideEnumFrom_outline sameBefore 0)
  obtain ⟨tokensAgain, foundBehind, sameBehind, printedBehind⟩ :=
    rest.tokens (rowAgain.reverse ++ earlier) (by simp [sameRow, sameBefore])
  refine ⟨rowAgain ++ tokensAgain, ?_, by simp [sameRow, sameBehind], fun latest samePrevious => ?_⟩
  · rw [cutWhole]
    refine ofSpansAfter_cons ?_ foundBehind
    rw [← cutBehind, Span.closesBody_rule sameHead]
    exact found
  · obtain ⟨linesAgain, printedAgain, settlingBehind⟩ :=
      printedBehind rowAgain.getLast? (by rw [← List.getLast?_map, ← List.getLast?_map, sameRow])
    refine exists_linesFrom_again (isRow_of_ofSpan found) sameRow sameBehind samePrevious printed
      printedAgain fun breaks => ?_
    rw [comesToAgain.settle_append, comesTo.settle_append, settlingGap, settlingGap, settlingBehind]

end Step

/-- The lines of a steady text are read again as tokens with lines that settle to the same text. -/
theorem readAlike_of_steady {style : Style} {before : List Token} {text : Text}
    (steady : Steady style before text) {tokens : List Token} {level : Nat} {previous : Option Token}
    {lines : List Text}
    (found : ofSpansAfter before (Span.split text) = .ok (before.reverse ++ tokens))
    (printed : linesFrom style level previous tokens = .ok lines) (breaks : Nat) :
    ReadAlike style before level previous tokens lines (Span.split text)
      (settle breaks (unlines lines) ++ ['\n']) := by
  induction steady generalizing tokens level previous lines breaks with
  | @blank before text none =>
      rw [Span.split_eq_nil_of_dropWhile none] at found ⊢
      have same := Except.ok.inj found
      obtain rfl : tokens = [] := by simpa using same
      obtain rfl := Except.ok.inj printed
      have empty : Span.split (settle breaks (unlines []) ++ ['\n']) = [] := Span.split_break
      refine ⟨by rw [empty], fun earlier _ => ⟨[], ?_, rfl, fun latest _ => ⟨[], rfl, fun _ => rfl⟩⟩⟩
      rw [empty, List.append_nil]
      rfl
  | @span before text source c start returns later ih =>
      rw [Span.split_of_start start] at found ⊢
      obtain ⟨row, own, rest⟩ := bind_eq_ok_iff.1 found
      obtain ⟨behind, same⟩ := exists_eq_append_of_ofSpansAfter rest
      obtain rfl : tokens = row ++ behind := by simpa using same
      obtain ⟨ownLines, linesBehind, printedOwn, printedBehind, rfl⟩ :=
        (Layout.linesFrom_row (isRow_of_ofSpan own)).1 printed
      obtain ⟨middle, final⟩ := returns level row ownLines own printedOwn
      by_cases isLast : Span.split (Span.cut c source).2 = []
      · obtain ⟨last, settled, again⟩ := final isLast
        rw [isLast] at rest again ⊢
        obtain rfl : behind = [] := by simpa using Except.ok.inj rest
        obtain rfl := Except.ok.inj printedBehind
        have alone := readAlike_last previous settled again breaks
        rw [Layout.breaksBetween_nil]
        simpa [blankLine] using alone
      · obtain ⟨paragraph, comesTo, again⟩ := middle isLast
        refine readAlike_cons comesTo isLast again (fun breaks => ?_) breaks
        exact ih row own (by rw [rest]; simp) printedBehind breaks

end Token

namespace Document

/-- A document is formatted to itself if it is a steady text that it is formatted from. -/
theorem format_of_steady {style : Style} {text document : Text}
    (steady : Span.Steady style [] text.normalizeBreaks)
    (formatted : format style text = .ok document) : format style document = .ok document := by
  obtain ⟨tokens, found, printed⟩ := bind_eq_ok_iff.1 formatted
  obtain ⟨lines, laid, same⟩ := bind_eq_ok_iff.1 printed
  obtain rfl := Except.ok.inj same
  have again := Token.readAlike_of_steady steady found laid 0
  obtain ⟨tokensAgain, foundAgain, -, printedAgain⟩ := again.tokens [] rfl
  obtain ⟨linesAgain, laidAgain, settled⟩ := printedAgain none rfl
  have noReturn := return_not_mem_format formatted
  have spans : Span.split (finalize (Text.joinLines lines)) =
      Span.split (Clean.settle 0 (Clean.unlines lines) ++ ['\n']) := by
    have parts := List.takeWhile_append_dropWhile (p := (· = '\n'))
      (l := Clean.settle 0 (Clean.unlines lines))
    rw [Clean.finalize_joinLines]
    conv => rhs; rw [← parts, List.append_assoc]
    exact (Span.split_blank_append (Token.all_isBlank_of_breaks List.all_takeWhile) _).symm
  have tokensEq : Document.tokens (finalize (Text.joinLines lines)) = .ok tokensAgain := by
    rw [Document.tokens, Text.normalizeBreaks_eq_self noReturn, Token.ofSource, spans, foundAgain]
    rfl
  rw [format, tokensEq]
  show Layout.format style tokensAgain = _
  rw [Layout.format, laidAgain]
  show Except.ok (finalize (Text.joinLines linesAgain)) = _
  rw [Clean.finalize_joinLines, settled, ← Clean.finalize_joinLines]

end Document

end IdlFormat
