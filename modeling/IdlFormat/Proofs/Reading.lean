import IdlFormat.Layout.BlockComment
import IdlFormat.Layout.Clean
import IdlFormat.Proofs.Joining
import IdlFormat.Proofs.Segment
import IdlFormat.Proofs.Spacing
import Mathlib.Data.List.Forall2

/-!
# Reading character by character

What a text says is what is left when its comments go, and of its code the blanks, the commas and
the semicolons. A reader can find it in one pass from left to right, and knows at the end whether a
literal broke off or a block comment stayed open. `read_spell` says that this reader and the
segments of a text agree. On the reader it is easy to see which changes of layout go unnoticed:
blanks before a line break or at the start of a line, a second line break, and more of that kind.
-/

namespace IdlFormat

namespace Segment

/-- What is left of a segment without comments, blanks, commas and semicolons. -/
def substance : Segment → Text
  | .code c => if isBlank c || c = ',' || c = ';' then [] else [c]
  | .literal text _ => text
  | .comment _ _ => []

/-- Whether a segment is closed: a literal on its line, a block comment at all. -/
def isComplete : Segment → Bool
  | .literal _ repair => repair.isEmpty
  | .comment .block text => Comment.closes (text.drop 2)
  | _ => true

/-- What segments say. -/
def substances (segments : List Segment) : Text :=
  segments.flatMap substance

@[simp]
theorem substances_nil : substances [] = [] := rfl

@[simp]
theorem substances_cons (segment : Segment) (rest : List Segment) :
    substances (segment :: rest) = segment.substance ++ substances rest := rfl

@[simp]
theorem substances_append (left right : List Segment) :
    substances (left ++ right) = substances left ++ substances right :=
  List.flatMap_append

end Segment

theorem Comment.closes_append {text : Text} (closed : closes text) (rest : Text) :
    closes (text ++ rest) := by
  fun_induction closes text with
  | case1 => simp at closed
  | case2 => rfl
  | case3 c text _ ih => exact closes_cons c (ih closed)

namespace Reading

/-- Where a reader stands. -/
inductive Mode where
  /-- In code, maybe with a slash that could open a comment. -/
  | code (slash : Bool)
  /-- In a literal, maybe right after an escaping backslash. -/
  | literal (quote : Char) (quoted : isQuote quote) (escaped : Bool)
  /-- In a line comment. -/
  | line
  /-- In a block comment, maybe right after a star. -/
  | block (star : Bool)
deriving DecidableEq, Repr

/-- The slash that a reader holds back until it knows whether it opens a comment. -/
def held (slash : Bool) : Text :=
  if slash then ['/'] else []

/-- The next place of the reader, and what the text says there; a literal must not break off. -/
def Mode.step : Mode → Char → Option (Mode × Text)
  | .code slash, c =>
      if slash && c = '/' then some (.line, [])
      else if slash && c = '*' then some (.block false, [])
      else if c = '/' then some (.code true, held slash)
      else if quoted : isQuote c then some (.literal c quoted false, held slash ++ [c])
      else some (.code false, held slash ++ Segment.substance (.code c))
  | .literal quote quoted escaped, c =>
      if c = '\n' then none
      else if !escaped && c = quote then some (.code false, [c])
      else some (.literal quote quoted (!escaped && c = '\\'), [c])
  | .line, c => some (if c = '\n' then .code false else .line, [])
  | .block star, c => some (if star && c = '/' then .code false else .block (c = '*'), [])

/-- What the reader still has to give at the end; it must not end in a literal or an open block
comment. -/
def Mode.finish : Mode → Option Text
  | .code slash => some (held slash)
  | .line => some []
  | _ => none

/-- What a text says to a reader, if all of it is closed. -/
def read (mode : Mode) : Text → Option Text
  | [] => mode.finish
  | c :: rest => (mode.step c).bind fun (next, out) => (read next rest).map (out ++ ·)

theorem read_cons {mode next : Mode} {c : Char} {out : Text} (step : mode.step c = some (next, out))
    (rest : Text) : read mode (c :: rest) = (read next rest).map (out ++ ·) := by
  rw [read, step]
  rfl

theorem map_nil_append (out : Option Text) : out.map ([] ++ ·) = out := by
  cases out <;> rfl

theorem read_line_cons (c : Char) (rest : Text) :
    read .line (c :: rest) = if c = '\n' then read (.code false) rest else read .line rest := by
  rw [read_cons rfl, map_nil_append]
  split <;> rfl

theorem read_block_cons (star : Bool) (c : Char) (rest : Text) :
    read (.block star) (c :: rest) =
      if star && c = '/' then read (.code false) rest else read (.block (c = '*')) rest := by
  rw [read_cons rfl, map_nil_append]
  split <;> rfl

theorem read_literal_cons {quote c : Char} (quoted : isQuote quote) (notBreak : c ≠ '\n')
    (escaped : Bool) (rest : Text) :
    read (.literal quote quoted escaped) (c :: rest) =
      if !escaped && c = quote then (read (.code false) rest).map (c :: ·)
      else (read (.literal quote quoted (!escaped && c = '\\')) rest).map (c :: ·) := by
  by_cases closing : (!escaped && c = quote) = true
  · rw [if_pos closing, read_cons (by rw [Mode.step, if_neg notBreak, if_pos closing])]
    rfl
  · rw [if_neg closing, read_cons (by rw [Mode.step, if_neg notBreak, if_neg closing])]
    rfl

theorem read_literal_break {quote : Char} (quoted : isQuote quote) (escaped : Bool) (rest : Text) :
    read (.literal quote quoted escaped) ('\n' :: rest) = none := rfl

theorem step_code {c : Char} {slash : Bool} (other : c ≠ '/') (noBlock : slash → c ≠ '*')
    (unquoted : isQuote c = false) :
    (Mode.code slash).step c = some (.code false, held slash ++ Segment.substance (.code c)) := by
  have notBlock : (slash && c = '*') = false := by
    cases slash with
    | false => rfl
    | true => simpa using noBlock rfl
  simp [Mode.step, other, notBlock, unquoted]

theorem step_quote {quote : Char} (quoted : isQuote quote) (slash : Bool) :
    (Mode.code slash).step quote = some (.literal quote quoted false, held slash ++ [quote]) := by
  have notStar : quote ≠ '*' := by
    rintro rfl
    simp [isQuote] at quoted
  simp [Mode.step, Literal.quote_ne_slash quoted, notStar, quoted]

/-- A slash is code, if what follows makes no comment of it. -/
theorem read_slash {rest : Text} (noLine : rest.head? ≠ some '/') (noBlock : rest.head? ≠ some '*') :
    read (.code true) rest = (read (.code false) rest).map ('/' :: ·) := by
  cases rest with
  | nil => rfl
  | cons c rest =>
      have notSlash : c ≠ '/' := by simpa using noLine
      have notStar : c ≠ '*' := by simpa using noBlock
      cases quoted : isQuote c with
      | true =>
          rw [read_cons (step_quote quoted true), read_cons (step_quote quoted false),
            Option.map_map]
          rfl
      | false =>
          rw [read_cons (step_code notSlash (fun _ => notStar) quoted),
            read_cons (step_code notSlash (by simp) quoted), Option.map_map]
          rfl

theorem read_code {c : Char} (unquoted : isQuote c = false) {rest : Text}
    (noComment : Comment.opens c rest.head? = false) :
    read (.code false) (c :: rest) =
      (read (.code false) rest).map (Segment.substance (.code c) ++ ·) := by
  by_cases slash : c = '/'
  · subst slash
    have follows : rest.head? ≠ some '/' ∧ rest.head? ≠ some '*' := by
      simpa [Comment.opens] using noComment
    have said : Segment.substance (.code '/') = ['/'] := by decide
    have waits : (Mode.code false).step '/' = some (.code true, []) := rfl
    rw [said, read_cons waits, map_nil_append, read_slash follows.1 follows.2]
    rfl
  · rw [read_cons (step_code slash (by simp) unquoted)]
    rfl

theorem read_literal {quote : Char} (quoted : isQuote quote) {escaped : Bool} {body repair : Text}
    (whole : Literal.scan quote escaped body = ⟨body, [], repair⟩) {rest : Text}
    (stops : Literal.Stops repair rest.head?) :
    read (.literal quote quoted escaped) (body ++ rest) =
      if repair.isEmpty then (read (.code false) rest).map (body ++ ·) else none := by
  induction body generalizing escaped with
  | nil =>
      simp only [Literal.scan, Literal.Scan.mk.injEq, true_and] at whole
      have isOpen : repair ≠ [] := by
        rw [← whole, Literal.repair]
        split <;> simp
      have unfinished : repair.isEmpty = false := by simpa using isOpen
      rw [unfinished]
      cases rest with
      | nil => rfl
      | cons c tail =>
          obtain rfl : c = '\n' := by simpa [Literal.Stops, isOpen] using stops
          rfl
  | cons c body ih =>
      rcases Literal.scan_cons_whole quoted whole with
        ⟨rfl, rfl, rfl, rfl⟩ | ⟨inLine, goesOn, inner⟩
      · rw [List.cons_append, read_literal_cons quoted (Literal.quote_ne_break quoted)]
        simp
      · have notClosing : (!escaped && decide (c = quote)) = false := by
          rcases goesOn with rfl | notQuote
          · simp
          · simp [notQuote]
        rw [List.cons_append, read_literal_cons quoted inLine, if_neg (by simp [notClosing]), ih inner]
        cases repair <;> simp [Function.comp_def]

theorem read_line {body rest : Text} (noBreak : '\n' ∉ body)
    (stops : rest.head? = none ∨ rest.head? = some '\n') :
    read .line (body ++ rest) = read (.code false) rest := by
  induction body with
  | nil =>
      cases rest with
      | nil => rfl
      | cons c tail =>
          obtain rfl : c = '\n' := by simpa using stops
          rw [List.nil_append, read_line_cons, if_pos rfl, read_code (by decide) (by simp [Comment.opens])]
          exact (map_nil_append _).symm
  | cons c body ih =>
      simp only [List.mem_cons, not_or] at noBreak
      rw [List.cons_append, read_line_cons, if_neg (Ne.symm noBreak.1), ih noBreak.2]

theorem read_block_star {rest : Text} (noSlash : rest.head? ≠ some '/') :
    read (.block true) rest = read (.block false) rest := by
  cases rest with
  | nil => rfl
  | cons c rest =>
      have notSlash : c ≠ '/' := by simpa using noSlash
      rw [read_block_cons, read_block_cons]
      simp [notSlash]

theorem read_block (text : Text) :
    read (.block false) text =
      if Comment.closes text then read (.code false) (Comment.throughClose text).2 else none := by
  fun_induction Comment.throughClose text with
  | case1 => rfl
  | case2 rest => simp [read_block_cons, Comment.closes]
  | case3 c rest noClose taken after cut ih =>
      have closing : Comment.closes (c :: rest) = Comment.closes rest := by
        rw [Comment.closes]
        exact noClose
      have passed : read (.block (c = '*')) rest = read (.block false) rest := by
        by_cases star : c = '*'
        · subst star
          apply read_block_star
          intro slash
          cases rest with
          | nil => simp at slash
          | cons d tail =>
              obtain rfl : d = '/' := by simpa using slash
              exact noClose tail rfl rfl
        · simp [star]
      rw [read_block_cons, closing]
      rw [cut] at ih
      simp [passed, ih]

end Reading

open Reading in
/-- The reader finds what the segments say, and whether all of them are closed. -/
theorem Segment.read_spell {segments : List Segment} (lexed : Lexed segments) :
    read (.code false) (spell segments) =
      if segments.all isComplete then some (substances segments) else none := by
  induction segments with
  | nil => rfl
  | cons segment rest ih =>
      have inner := ih lexed.2
      rw [spell_cons, List.all_cons, substances_cons]
      match segment, lexed.1 with
      | .code c, ⟨unquoted, noComment⟩ =>
          rw [Segment.text, List.singleton_append, read_code unquoted noComment, inner]
          cases rest.all isComplete <;> simp [isComplete]
      | .literal _ repair, ⟨quote, body, rfl, quoted, whole, stops⟩ =>
          rw [Segment.text, List.cons_append, read_cons (step_quote quoted false),
            read_literal quoted whole stops, inner]
          cases repair <;> cases rest.all isComplete <;> simp [isComplete, substance, held]
      | .comment .line _, ⟨body, rfl, noBreak, stops⟩ =>
          have waits : (Mode.code false).step '/' = some (.code true, []) := rfl
          have opened : (Mode.code true).step '/' = some (.line, []) := rfl
          rw [Segment.text, List.cons_append, List.cons_append, read_cons waits, map_nil_append,
            read_cons opened, map_nil_append, read_line noBreak stops, inner]
          simp [isComplete, substance]
      | .comment .block _, ⟨body, rfl, whole, stops⟩ =>
          have waits : (Mode.code false).step '/' = some (.code true, []) := rfl
          have opened : (Mode.code true).step '*' = some (.block false, []) := rfl
          rw [Segment.text, List.cons_append, List.cons_append, read_cons waits, map_nil_append,
            read_cons opened, map_nil_append, read_block]
          by_cases closed : Comment.closes body
          · rw [Comment.throughClose_append_of_isBody whole (.inl closed), inner,
              if_pos (Comment.closes_append closed _)]
            simp [isComplete, substance, closed]
          · have ended : spell rest = [] := by simpa [closed] using stops
            simp [isComplete, ended, closed]

namespace Reading

theorem not_isQuote_of_isBlank {c : Char} (blank : isBlank c) : isQuote c = false := by
  cases quoted : isQuote c with
  | false => rfl
  | true =>
      rcases isQuote_iff.1 quoted with rfl | rfl <;> revert blank <;> decide

theorem step_blank {c : Char} (blank : isBlank c) (slash : Bool) :
    (Mode.code slash).step c = some (.code false, held slash) := by
  have notSlash : c ≠ '/' := by
    rintro rfl
    revert blank
    decide
  have notStar : c ≠ '*' := by
    rintro rfl
    revert blank
    decide
  rw [step_code notSlash (fun _ => notStar) (not_isQuote_of_isBlank blank)]
  simp [Segment.substance, blank]

/-- The reader is in no place that a blank could change. -/
def Mode.isFresh : Mode → Bool
  | .code slash => !slash
  | .block star => !star
  | _ => false

theorem read_fresh_blank {mode : Mode} (fresh : mode.isFresh) {c : Char} (blank : isBlank c)
    (rest : Text) : read mode (c :: rest) = read mode rest := by
  match mode, fresh with
  | .code false, _ => rw [read_cons (step_blank blank false), held]; exact map_nil_append _
  | .block false, _ =>
      have notStar : c ≠ '*' := by
        rintro rfl
        revert blank
        decide
      rw [read_block_cons]
      simp [notStar]

/-- A blank before a line break goes unnoticed, and so does one at the end. -/
theorem read_blank_cons (mode : Mode) {c : Char} (blank : isBlank c) {rest : Text}
    (stops : rest.head? = none ∨ rest.head? = some '\n') :
    read mode (c :: rest) = read mode rest := by
  have breaks : isBlank '\n' := isBlank_break
  cases mode with
  | code slash =>
      rw [read_cons (step_blank blank slash)]
      cases rest with
      | nil => simp [read, Mode.finish, held]
      | cons d rest =>
          obtain rfl : d = '\n' := by simpa using stops
          rw [read_cons (step_blank breaks slash), read_fresh_blank rfl breaks]
  | line =>
      rw [read_line_cons]
      split
      · cases rest with
        | nil => rfl
        | cons d rest =>
            obtain rfl : d = '\n' := by simpa using stops
            rw [read_line_cons, if_pos rfl, read_fresh_blank rfl breaks]
      · rfl
  | block star =>
      have notSlash : c ≠ '/' := by
        rintro rfl
        revert blank
        decide
      rw [read_block_cons, if_neg (by simp [notSlash])]
      cases rest with
      | nil => rfl
      | cons d rest =>
          obtain rfl : d = '\n' := by simpa using stops
          rw [read_block_cons, read_block_cons]
          simp
  | literal quote quoted escaped =>
      have notQuote : c ≠ quote := by
        rintro rfl
        rw [not_isQuote_of_isBlank blank] at quoted
        exact Bool.false_ne_true quoted
      have unfinished (escaped : Bool) : read (.literal quote quoted escaped) rest = none := by
        cases rest with
        | nil => rfl
        | cons d rest =>
            obtain rfl : d = '\n' := by simpa using stops
            rfl
      by_cases isBreak : c = '\n'
      · rw [isBreak, read_literal_break, unfinished]
      · rw [read_literal_cons quoted isBreak, if_neg (by simp [notQuote]), unfinished, unfinished]
        rfl

theorem read_cons_congr {text other : Text} (same : ∀ mode, read mode text = read mode other)
    (mode : Mode) (c : Char) : read mode (c :: text) = read mode (c :: other) := by
  rw [read, read]
  congr 1
  funext (next, out)
  simp only [same]

theorem read_append_congr {text other : Text} (same : ∀ mode, read mode text = read mode other)
    (mode : Mode) (before : Text) : read mode (before ++ text) = read mode (before ++ other) := by
  induction before generalizing mode with
  | nil => exact same mode
  | cons c before ih => exact read_cons_congr ih mode c

/-- After a line break the reader is fresh, wherever it was. -/
theorem read_break_congr {text other : Text}
    (same : ∀ mode, mode.isFresh → read mode text = read mode other) (mode : Mode) :
    read mode ('\n' :: text) = read mode ('\n' :: other) := by
  cases mode with
  | code slash =>
      have breaks : isBlank '\n' := isBlank_break
      rw [read_cons (step_blank breaks slash), read_cons (step_blank breaks slash),
        same (.code false) rfl]
  | literal quote quoted escaped => rfl
  | line => rw [read_line_cons, read_line_cons, if_pos rfl, if_pos rfl, same (.code false) rfl]
  | block star =>
      have notSlash : (star && decide ('\n' = '/')) = false := by simp
      rw [read_block_cons, read_block_cons, notSlash]
      exact same (.block false) rfl

theorem read_trimStart {mode : Mode} (fresh : mode.isFresh) (text rest : Text) :
    read mode (text.trimStart ++ rest) = read mode (text ++ rest) := by
  induction text with
  | nil => rfl
  | cons c text ih =>
      by_cases blank : isBlank c
      · have dropped : Text.trimStart (c :: text) = Text.trimStart text :=
          List.dropWhile_cons_of_pos blank
        rw [dropped, ih, List.cons_append, read_fresh_blank fresh blank]
      · have kept : Text.trimStart (c :: text) = c :: text := List.dropWhile_cons_of_neg blank
        rw [kept]

theorem read_trimEnd (mode : Mode) (text : Text) {rest : Text}
    (stops : rest.head? = none ∨ rest.head? = some '\n') :
    read mode (text.trimEnd ++ rest) = read mode (text ++ rest) := by
  induction text generalizing mode with
  | nil => rfl
  | cons c text ih =>
      rw [Text.trimEnd_cons]
      split
      · next dropped =>
          simp only [Bool.and_eq_true, List.isEmpty_iff] at dropped
          rw [dropped.2] at ih
          rw [List.cons_append, ← read_cons_congr ih, List.nil_append,
            read_blank_cons mode dropped.1 stops]
      · exact read_cons_congr ih mode c

theorem read_trim (text : Text) : read (.code false) text.trim = read (.code false) text := by
  have atEnd := read_trimEnd (.code false) text.trimStart (.inl (@List.head?_nil Char))
  have atStart := @read_trimStart (.code false) rfl text []
  simp only [List.append_nil] at atEnd atStart
  rw [Text.trim, atEnd, atStart]

theorem read_trimLineEnds (mode : Mode) (text : Text) :
    read mode (Clean.trimLineEnds text) = read mode text := by
  induction text generalizing mode with
  | nil => rfl
  | cons c rest ih =>
      have cons : Clean.trimLineEnds (c :: rest) =
          if isIndent c && ((Clean.trimLineEnds rest).isEmpty ||
            (Clean.trimLineEnds rest).head? = some '\n') then Clean.trimLineEnds rest
          else c :: Clean.trimLineEnds rest := rfl
      rw [← read_cons_congr ih, cons]
      split
      · next dropped =>
          have stops : (Clean.trimLineEnds rest).head? = none ∨
              (Clean.trimLineEnds rest).head? = some '\n' := by
            simpa using (Bool.and_eq_true_iff.1 dropped).2
          rw [read_blank_cons mode (isBlank_of_isIndent (Bool.and_eq_true_iff.1 dropped).1) stops]
      · rfl

theorem read_capBreaksFrom (breaks : Nat) (text : Text) (mode : Mode)
    (fresh : 0 < breaks → mode.isFresh) :
    read mode (Clean.capBreaksFrom breaks text) = read mode text := by
  fun_induction Clean.capBreaksFrom breaks text generalizing mode with
  | case1 => rfl
  | case2 breaks rest _ ih => exact read_break_congr (fun next isFresh => ih next fun _ => isFresh) mode
  | case3 breaks rest many ih =>
      have isFresh := fresh (by omega)
      rw [ih mode fun _ => isFresh, read_fresh_blank isFresh isBlank_break]
  | case4 breaks c rest _ ih =>
      exact read_cons_congr (fun next => ih next fun none => absurd none (Nat.lt_irrefl 0)) mode c

/-- The clean form of a document says the same. -/
theorem read_finalize (text : Text) : read (.code false) (finalize text) = read (.code false) text := by
  have leading (text : Text) : read (.code false) (text.dropWhile (· = '\n')) = read (.code false) text := by
    induction text with
    | nil => rfl
    | cons c text ih =>
        by_cases isBreak : c = '\n'
        · subst isBreak
          rw [List.dropWhile_cons_of_pos (by simp), ih, read_fresh_blank rfl isBlank_break]
        · rw [List.dropWhile_cons_of_neg (by simpa using isBreak)]
  have last (mode : Mode) : read mode ['\n'] = read mode [] :=
    read_blank_cons mode isBlank_break (.inl rfl)
  have ended (text : Text) : read (.code false) (text.trimEnd ++ ['\n']) = read (.code false) text := by
    have trimmed := read_trimEnd (.code false) text (.inl (@List.head?_nil Char))
    rw [read_append_congr last, trimmed, List.append_nil]
  rw [finalize, ended, leading, Clean.capBreaks, read_capBreaksFrom 0 _ _ (by simp),
    read_trimLineEnds]

/-- Lines that differ in the blanks at their ends only say the same. -/
theorem read_joinLines_congr {lines others : List Text}
    (same : List.Forall₂ (fun line other => line.trim = other.trim) lines others) {mode : Mode}
    (fresh : mode.isFresh) :
    read mode (Text.joinLines lines) = read mode (Text.joinLines others) := by
  have trimmed {rest : Text} (stops : rest.head? = none ∨ rest.head? = some '\n') {mode : Mode}
      (fresh : mode.isFresh) (line : Text) : read mode (line ++ rest) = read mode (line.trim ++ rest) := by
    rw [Text.trim, read_trimEnd mode line.trimStart stops, read_trimStart fresh]
  have single {mode : Mode} (fresh : mode.isFresh) {line other : Text} (same : line.trim = other.trim) :
      read mode line = read mode other := by
    have left := trimmed (.inl (@List.head?_nil Char)) fresh line
    have right := trimmed (.inl (@List.head?_nil Char)) fresh other
    simp only [List.append_nil] at left right
    rw [left, right, same]
  induction same generalizing mode with
  | nil => rfl
  | @cons line other lines others first rest ih =>
      cases rest with
      | nil => exact single fresh first
      | @cons next following lines others second rest =>
          rw [Text.joinLines_cons_cons, Text.joinLines_cons_cons, trimmed (.inr rfl) fresh line,
            trimmed (.inr rfl) fresh other, first]
          apply read_append_congr
          exact read_break_congr fun mode fresh => ih fresh

/-- A comment says the same when it is indented anew. -/
theorem read_formatComment {indent : Text} (blank : indent.all isBlank) (comment : Text) :
    read (.code false) (BlockComment.format indent comment) = read (.code false) comment := by
  have whole := Text.joinLines_splitOn comment
  unfold BlockComment.format
  split
  · next empty =>
      rw [empty] at whole
      rw [← whole, ← read_trim, ← List.append_nil indent, Text.trim_append blank]
      rfl
  · next first rest cut =>
      rw [cut] at whole
      conv => rhs; rw [← whole]
      apply read_joinLines_congr _ rfl
      apply List.Forall₂.cons
      · rw [Text.trim_append blank, Text.trim_trim]
      · rw [List.forall₂_map_left_iff, List.forall₂_same]
        exact fun line member => BlockComment.trim_formatLine blank member

/-- What stands before a line break is read on its own, if it is closed there. -/
theorem read_append_break {mode : Mode} {text out : Text} (said : read mode text = some out)
    (rest : Text) :
    read mode (text ++ '\n' :: rest) = (read (.code false) rest).map (out ++ ·) := by
  induction text generalizing mode out with
  | nil =>
      match mode with
      | .code slash =>
          simp only [read, Mode.finish, Option.some.injEq] at said
          rw [List.nil_append, read_cons (step_blank isBlank_break slash), said]
      | .line =>
          simp only [read, Mode.finish, Option.some.injEq] at said
          rw [List.nil_append, read_line_cons, if_pos rfl, ← said, map_nil_append]
      | .literal _ _ _ => simp [read, Mode.finish] at said
      | .block _ => simp [read, Mode.finish] at said
  | cons c text ih =>
      rw [read] at said
      obtain ⟨⟨next, own⟩, step, said⟩ := Option.bind_eq_some_iff.1 said
      obtain ⟨more, inner, rfl⟩ := Option.map_eq_some_iff.1 said
      rw [List.cons_append, read_cons step, ih inner, Option.map_map]
      simp [Function.comp_def]

/-- What lines say one after the other. -/
def readLines : List Text → Option Text
  | [] => some []
  | line :: lines => do
      let out ← read (.code false) line
      let more ← readLines lines
      return out ++ more

theorem readLines_append {lines others : List Text} {out more : Text}
    (said : readLines lines = some out) (saidToo : readLines others = some more) :
    readLines (lines ++ others) = some (out ++ more) := by
  induction lines generalizing out with
  | nil =>
      simp only [readLines, Option.some.injEq] at said
      rw [← said, List.nil_append, List.nil_append, saidToo]
  | cons line lines ih =>
      simp only [readLines, Option.bind_eq_bind, Option.bind_eq_some_iff, Option.pure_def,
        Option.some.injEq] at said
      obtain ⟨first, own, rest, inner, rfl⟩ := said
      simp [readLines, own, ih inner]

theorem read_joinLines {lines : List Text} {out : Text} (said : readLines lines = some out) :
    read (.code false) (Text.joinLines lines) = some out := by
  induction lines generalizing out with
  | nil => exact said
  | cons line lines ih =>
      simp only [readLines, Option.bind_eq_bind, Option.bind_eq_some_iff, Option.pure_def,
        Option.some.injEq] at said
      obtain ⟨first, own, rest, inner, rfl⟩ := said
      cases lines with
      | nil =>
          simp only [readLines, Option.some.injEq] at inner
          rw [← inner, List.append_nil]
          exact own
      | cons next lines =>
          rw [Text.joinLines_cons_cons, read_append_break own, ih inner]
          rfl

end Reading

end IdlFormat
