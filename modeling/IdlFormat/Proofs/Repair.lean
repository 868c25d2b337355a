import IdlFormat.Proofs.Pattern
import IdlFormat.Proofs.Reading
import IdlFormat.Proofs.Unmasking
import Mathlib.Data.List.DropRight

/-!
# The repair of open literals

A reader that runs over a text from left to right knows at every line break and at the end whether
it stands in a literal. `closeFrom_code` says that closing literals writes what is missing there and
nothing else, and the reader knows what is missing by the backslashes that stand right before it
(`escaped_of_after`). The repaired text reads as its literals and comments, by the scan that repairs
and by the pattern that hides alike, and where all of these are hidden, nothing is left that could
open another one.
-/

namespace IdlFormat

namespace Reading

/-- The next place of a reader for which a literal that breaks off is over. -/
def Mode.next (mode : Mode) (c : Char) : Mode :=
  ((mode.step c).map (·.1)).getD (.code false)

/-- The place of a reader behind a text. -/
def Mode.after (mode : Mode) (text : Text) : Mode :=
  text.foldl next mode

/-- What closes the literal that a reader stands in. -/
def Mode.missing : Mode → Text
  | .literal quote _ escaped => Literal.repair quote escaped
  | _ => []

/-- Closes the literals of a text in which a reader stands at a line break or at the end. -/
def closeFrom (mode : Mode) : Text → Text
  | [] => mode.missing
  | c :: rest => (if c = '\n' then mode.missing else []) ++ c :: closeFrom (mode.next c) rest

/-- The number of backslashes at the end of a text. -/
def backslashes (text : Text) : Nat :=
  (text.rtakeWhile (· = '\\')).length

theorem next_code (slash : Bool) (c : Char) :
    (Mode.code slash).next c =
      if slash && c = '/' then .line
      else if slash && c = '*' then .block false
      else if c = '/' then .code true
      else if quoted : isQuote c then .literal c quoted false
      else .code false := by
  rw [Mode.next, Mode.step]
  split_ifs <;> rfl

theorem next_literal {quote : Char} (quoted : isQuote quote) (escaped : Bool) (c : Char) :
    (Mode.literal quote quoted escaped).next c =
      if c = '\n' ∨ (!escaped && c = quote) then .code false
      else .literal quote quoted (!escaped && c = '\\') := by
  rw [Mode.next, Mode.step]
  split_ifs <;> simp_all

theorem next_line (c : Char) : Mode.line.next c = if c = '\n' then .code false else .line := rfl

theorem next_block (star : Bool) (c : Char) :
    (Mode.block star).next c = if star && c = '/' then .code false else .block (c = '*') := rfl

/-- A literal is entered by its quote, and left where it ends. -/
theorem of_next_eq_literal {mode : Mode} {c quote : Char} {quoted : isQuote quote} {escaped : Bool}
    (inside : mode.next c = .literal quote quoted escaped) :
    (c = quote ∧ escaped = false) ∨
      ∃ before, mode = .literal quote quoted before ∧ escaped = (!before && c = '\\') := by
  cases mode with
  | code slash =>
      rw [next_code] at inside
      split_ifs at inside
      obtain ⟨rfl, rfl⟩ := Mode.literal.inj inside
      exact .inl ⟨rfl, rfl⟩
  | line =>
      rw [next_line] at inside
      split_ifs at inside
  | block star =>
      rw [next_block] at inside
      split_ifs at inside
  | literal other otherQuoted before =>
      rw [next_literal] at inside
      split_ifs at inside
      obtain ⟨rfl, rfl⟩ := Mode.literal.inj inside
      exact .inr ⟨before, rfl, rfl⟩

theorem backslashes_concat (text : Text) (c : Char) :
    backslashes (text ++ [c]) = if c = '\\' then backslashes text + 1 else 0 := by
  rw [backslashes, List.rtakeWhile_concat]
  by_cases backslash : c = '\\' <;> simp [backslash, backslashes]

/-- Behind an open literal, the last character is an escaping backslash if the number of backslashes
there is odd. -/
theorem escaped_of_after {text : Text} {quote : Char} {quoted : isQuote quote} {escaped : Bool}
    (inside : (Mode.code false).after text = .literal quote quoted escaped) :
    escaped = decide (backslashes text % 2 = 1) := by
  induction text using List.reverseRecOn generalizing escaped with
  | nil => simp [Mode.after] at inside
  | append_singleton text c ih =>
      rw [Mode.after, List.foldl_append, List.foldl_cons, List.foldl_nil, ← Mode.after] at inside
      rw [backslashes_concat]
      rcases of_next_eq_literal inside with ⟨rfl, rfl⟩ | ⟨before, stood, rfl⟩
      · simp [Literal.quote_ne_backslash quoted]
      · rw [ih stood]
        by_cases backslash : c = '\\'
        · rw [if_pos backslash]
          by_cases odd : backslashes text % 2 = 1 <;> simp [backslash, odd] <;> omega
        · simp [backslash]

/-! ## Closing literals on the run -/

theorem closeFrom_cons {c : Char} (notBreak : c ≠ '\n') (mode : Mode) (rest : Text) :
    closeFrom mode (c :: rest) = c :: closeFrom (mode.next c) rest := by
  rw [closeFrom, if_neg notBreak, List.nil_append]

/-- A slash that opens no comment is code. -/
theorem closeFrom_slash {rest : Text} (opensNone : Comment.opens '/' rest.head? = false) :
    closeFrom (.code true) rest = closeFrom (.code false) rest := by
  cases rest with
  | nil => rfl
  | cons c rest =>
      have follows : c ≠ '/' ∧ c ≠ '*' := by simpa [Comment.opens] using opensNone
      have same : (Mode.code true).next c = (Mode.code false).next c := by
        simp [next_code, follows.1, follows.2]
      rw [closeFrom, closeFrom, same]
      rfl

/-- Where nothing is missing at a line break or at the end, the reader is back in code there. -/
theorem closeFrom_line_end {mode : Mode} (leaves : mode.next '\n' = .code false) {rest : Text}
    (stops : rest.head? = none ∨ rest.head? = some '\n') :
    closeFrom mode rest = mode.missing ++ closeFrom (.code false) rest := by
  cases rest with
  | nil => exact (List.append_nil _).symm
  | cons c rest =>
      obtain rfl : c = '\n' := by simpa using stops
      rw [closeFrom, closeFrom, if_pos rfl, if_pos rfl, leaves]
      rfl

theorem closeFrom_code_append {c : Char} {rest : Text} (unquoted : isQuote c = false)
    (opensNone : Comment.opens c rest.head? = false) :
    closeFrom (.code false) (c :: rest) = c :: closeFrom (.code false) rest := by
  have nothing : (if c = '\n' then Mode.missing (.code false) else []) = [] := by
    split <;> rfl
  rw [closeFrom, nothing, List.nil_append, next_code]
  by_cases slash : c = '/'
  · subst slash
    rw [← closeFrom_slash opensNone]
    rfl
  · simp [slash, unquoted]

theorem closeFrom_literal_append {quote : Char} (quoted : isQuote quote) {escaped : Bool}
    {body repair rest : Text} (whole : Literal.scan quote escaped body = ⟨body, [], repair⟩)
    (stops : Literal.Stops repair rest.head?) :
    closeFrom (.literal quote quoted escaped) (body ++ rest) =
      body ++ repair ++ closeFrom (.code false) rest := by
  induction body generalizing escaped with
  | nil =>
      simp only [Literal.scan, Literal.Scan.mk.injEq, true_and] at whole
      subst whole
      have isOpen : Literal.repair quote escaped ≠ [] := by
        rw [Literal.repair]
        split <;> simp
      exact closeFrom_line_end (by simp [next_literal]) (stops.resolve_left isOpen)
  | cons c body ih =>
      rcases Literal.scan_cons_whole quoted whole with
        ⟨rfl, rfl, rfl, rfl⟩ | ⟨inLine, goesOn, inner⟩
      · rw [List.cons_append, closeFrom_cons (Literal.quote_ne_break quoted), next_literal]
        simp
      · have inside : (Mode.literal quote quoted escaped).next c =
            .literal quote quoted (!escaped && c = '\\') := by
          rw [next_literal, if_neg]
          rcases goesOn with rfl | notQuote
          · simp [inLine]
          · simp [inLine, notQuote]
        rw [List.cons_append, closeFrom_cons inLine, inside, ih inner]
        rfl

theorem closeFrom_line_append {body rest : Text} (noBreak : '\n' ∉ body)
    (stops : rest.head? = none ∨ rest.head? = some '\n') :
    closeFrom .line (body ++ rest) = body ++ closeFrom (.code false) rest := by
  induction body with
  | nil => exact closeFrom_line_end rfl stops
  | cons c body ih =>
      simp only [List.mem_cons, not_or] at noBreak
      have inLine := Ne.symm noBreak.1
      rw [List.cons_append, closeFrom_cons inLine, next_line, if_neg inLine, ih noBreak.2]
      rfl

theorem closeFrom_block_cons {star : Bool} {c : Char} {rest : Text} :
    closeFrom (.block star) (c :: rest) =
      c :: if star && c = '/' then closeFrom (.code false) rest
        else closeFrom (.block (c = '*')) rest := by
  have nothing : (if c = '\n' then Mode.missing (.block star) else []) = [] := by
    split <;> rfl
  rw [closeFrom, nothing, List.nil_append, next_block]
  split <;> rfl

theorem closeFrom_block (text : Text) :
    closeFrom (.block false) text =
      (Comment.throughClose text).1 ++ closeFrom (.code false) (Comment.throughClose text).2 := by
  fun_induction Comment.throughClose text with
  | case1 => rfl
  | case2 rest => simp [closeFrom_block_cons]
  | case3 c rest noClose taken after cut ih =>
      have passed : closeFrom (.block (c = '*')) rest = closeFrom (.block false) rest := by
        cases rest with
        | nil => rfl
        | cons d tail =>
            have goesOn : (decide (c = '*') && decide (d = '/')) = false := by
              rw [Bool.and_eq_false_imp]
              intro star
              rw [decide_eq_false_iff_not]
              rintro rfl
              exact noClose tail (of_decide_eq_true star) rfl
            rw [closeFrom_block_cons, closeFrom_block_cons, goesOn]
            rfl
      rw [cut] at ih
      rw [closeFrom_block_cons]
      simp [passed, ih]

theorem closeFrom_text_append {segment : Segment} {rest : Text} (fits : segment.Fits rest.head?) :
    closeFrom (.code false) (segment.text ++ rest) =
      segment.closed ++ closeFrom (.code false) rest := by
  match segment, fits with
  | .code c, ⟨unquoted, opensNone⟩ => exact closeFrom_code_append unquoted opensNone
  | .literal _ repair, ⟨quote, body, rfl, quoted, whole, stops⟩ =>
      have entered : (Mode.code false).next quote = .literal quote quoted false := by
        simp [next_code, Literal.quote_ne_slash quoted, quoted]
      rw [Segment.text, List.cons_append, closeFrom_cons (Literal.quote_ne_break quoted), entered,
        closeFrom_literal_append quoted whole stops]
      rfl
  | .comment .line _, ⟨body, rfl, noBreak, stops⟩ =>
      show '/' :: '/' :: closeFrom .line (body ++ rest) = _
      rw [closeFrom_line_append noBreak stops]
      rfl
  | .comment .block _, ⟨body, rfl, whole, stops⟩ =>
      show '/' :: '*' :: closeFrom (.block false) (body ++ rest) = _
      rw [closeFrom_block, Comment.throughClose_append_of_isBody whole (by simpa using stops)]
      rfl

/-- The reader writes what closing literals writes. -/
theorem closeFrom_code (text : Text) : closeFrom (.code false) text = closeLiterals text := by
  have run {segments : List Segment} (lexed : Segment.Lexed segments) :
      closeFrom (.code false) (Segment.spell segments) = segments.flatMap Segment.closed := by
    induction segments with
    | nil => rfl
    | cons segment segments ih =>
        rw [Segment.spell_cons, closeFrom_text_append lexed.1, ih lexed.2, List.flatMap_cons]
  have whole := run (Segment.lexed_split text)
  rwa [Segment.spell_split] at whole

/-- What is written before a place in a text: where a literal is open at a line break or at the end,
its quote, after a second backslash if the number of backslashes there is odd. -/
def repairAt (text : Text) (i : Nat) : Text :=
  if text[i]? = none ∨ text[i]? = some '\n' then
    match (Mode.code false).after (text.take i) with
    | .literal quote _ _ => Literal.repair quote (backslashes (text.take i) % 2 = 1)
    | _ => []
  else []

theorem closeFrom_eq (mode : Mode) (text : Text) :
    closeFrom mode text = (List.range (text.length + 1)).flatMap fun i =>
      (if text[i]? = none ∨ text[i]? = some '\n' then (mode.after (text.take i)).missing else []) ++
        text[i]?.toList := by
  induction text generalizing mode with
  | nil => simp [closeFrom, Mode.after]
  | cons c rest ih =>
      rw [List.length_cons, List.range_succ_eq_map, List.flatMap_cons, List.flatMap_map, closeFrom,
        ih]
      simp [Mode.after]

theorem repairAt_eq (text : Text) (i : Nat) :
    repairAt text i =
      if text[i]? = none ∨ text[i]? = some '\n' then
        ((Mode.code false).after (text.take i)).missing
      else [] := by
  rw [repairAt]
  cases place : (Mode.code false).after (text.take i) with
  | literal quote quoted escaped => rw [Mode.missing, escaped_of_after place]
  | code slash => rfl
  | line => rfl
  | block star => rfl

end Reading

/-- Closing the literals of a text inserts what is missing where a literal is open at a line break or
at the end. -/
theorem closeLiterals_eq (text : Text) :
    closeLiterals text =
      (List.range (text.length + 1)).flatMap fun i =>
        Reading.repairAt text i ++ text[i]?.toList := by
  rw [← Reading.closeFrom_code, Reading.closeFrom_eq]
  simp only [Reading.repairAt_eq]

/-- A lone backslash gets a second one, so that the quote behind it closes. -/
example : closeLiterals "a(\"b\\\n'c\\\\".toList = "a(\"b\\\\\"\n'c\\\\'".toList := by
  decide +kernel

theorem closeLiterals_closeLiterals (text : Text) :
    closeLiterals (closeLiterals text) = closeLiterals text := by
  have closed_close (segment : Segment) : segment.close.closed = segment.closed := by
    cases segment with
    | literal text repair => exact List.append_nil _
    | code c => rfl
    | comment form text => rfl
  rw [closeLiterals, split_closeLiterals, List.flatMap_map, closeLiterals]
  exact congrArg (Segment.split text).flatMap (funext closed_close)

namespace Mask

open Segment

theorem isQuote_of_mem_write {segments : List Segment} (lexed : Lexed segments) (next : Nat) :
    ∀ c ∈ write next (segments.map piece), isQuote c = false := by
  induction segments generalizing next with
  | nil => exact fun c member => absurd member List.not_mem_nil
  | cons segment segments ih =>
      intro c member
      rcases segment.code_or_hidden with ⟨d, rfl⟩ | isHidden
      · rcases List.mem_cons.1 member with rfl | later
        · exact lexed.1.1
        · exact ih lexed.2 next c later
      · rw [write_map_piece_cons_of_ne_code isHidden, List.mem_append] at member
        rcases member with inside | later
        · have number := isPlaceholderChar_of_mem inside
          cases quoted : isQuote c with
          | false => rfl
          | true => rcases isQuote_iff.1 quoted with rfl | rfl <;> exact absurd number (by decide)
        · exact ih lexed.2 (next + 1) c later

/-- Behind a character of code, a masked text goes on as the text itself or with a mark. -/
theorem head?_write (segments : List Segment) (next : Nat) :
    (write next (segments.map piece)).head? = (spell segments).head? ∨
      (write next (segments.map piece)).head? = some mark := by
  cases segments with
  | nil => exact .inl rfl
  | cons segment segments =>
      cases segment with
      | code c => exact .inl rfl
      | literal text repair => exact .inr rfl
      | comment form text => exact .inr rfl

/-- A comment that opens behind a text without slashes opens in what follows. -/
theorem form?_of_suffix_append {front tail : Text} (noSlash : '/' ∉ front)
    (later : ∀ rest, rest <:+ tail → Comment.form? rest = none) :
    ∀ rest, rest <:+ front ++ tail → Comment.form? rest = none := by
  induction front with
  | nil => exact later
  | cons c front ih =>
      simp only [List.mem_cons, not_or] at noSlash
      intro rest ends
      rcases List.suffix_cons_iff.1 ends with rfl | within
      · refine (Comment.form?_cons_eq_none_iff c (front ++ tail)).2 ?_
        simp [Comment.opens, Ne.symm noSlash.1]
      · exact ih noSlash.2 rest within

theorem form?_of_suffix_write {segments : List Segment} (lexed : Lexed segments) (next : Nat) :
    ∀ rest, rest <:+ write next (segments.map piece) → Comment.form? rest = none := by
  induction segments generalizing next with
  | nil =>
      intro rest ends
      rw [List.suffix_nil.1 ends]
      rfl
  | cons segment segments ih =>
      rcases segment.code_or_hidden with ⟨c, rfl⟩ | isHidden
      · intro rest ends
        rcases List.suffix_cons_iff.1 ends with rfl | within
        · rw [Comment.form?_cons_eq_none_iff]
          rcases head?_write segments next with same | marked
          · rw [same]
            exact lexed.1.2
          · have notSlash : mark ≠ '/' := by decide
            have notStar : mark ≠ '*' := by decide
            simp [marked, Comment.opens, notSlash, notStar]
        · exact ih lexed.2 next rest within
      · rw [write_map_piece_cons_of_ne_code isHidden]
        have noSlash : '/' ∉ placeholder next := fun member =>
          absurd (isPlaceholderChar_of_mem member) (by decide)
        exact form?_of_suffix_append noSlash (ih lexed.2 (next + 1))

end Mask

/-- Closing literals is done once it is done, and inserts exactly what closes the literals that are
open at line breaks and at the end. In the result the pattern of what is hidden finds the literals
and comments that closing visits, so that no quote is left in a masked text and no comment opens
there. -/
theorem closeLiterals_read_alike (text : Text) :
    closeLiterals (closeLiterals text) = closeLiterals text ∧
      closeLiterals text =
        ((List.range (text.length + 1)).flatMap fun i =>
          Reading.repairAt text i ++ text[i]?.toList) ∧
      Pattern.hidden.matchesFrom 0 (closeLiterals text) =
        Segment.visitsFrom 0 (Segment.split (closeLiterals text)) ∧
      (∀ c ∈ (mask text).text, isQuote c = false) ∧
      ¬"//".toList <:+: (mask text).text ∧ ¬"/*".toList <:+: (mask text).text := by
  have lexed := Segment.lexed_split text
  have shown : (mask text).text = Mask.write 0 ((Segment.split text).map Segment.piece) :=
    congrArg (Mask.write 0) (Mask.pieces_closeLiterals text)
  have opensNone (opener : Text) (opens : ∀ rest, Comment.form? (opener ++ rest) ≠ none) :
      ¬opener <:+: (mask text).text := by
    rintro ⟨before, after, same⟩
    have ends : opener ++ after <:+ (mask text).text := ⟨before, by rw [← same, List.append_assoc]⟩
    rw [shown] at ends
    exact opens after (Mask.form?_of_suffix_write lexed 0 _ ends)
  refine ⟨closeLiterals_closeLiterals text, closeLiterals_eq text, ?_, ?_, ?_, ?_⟩
  · rw [split_closeLiterals]
    exact Pattern.matchesFrom_closed lexed 0
  · rw [shown]
    exact Mask.isQuote_of_mem_write lexed 0
  · exact opensNone _ fun rest => by simp [Comment.form?]
  · exact opensNone _ fun rest => by simp [Comment.form?]

end IdlFormat
