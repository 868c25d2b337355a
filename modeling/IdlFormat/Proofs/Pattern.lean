import IdlFormat.Proofs.Mask
import Mathlib.Data.List.Induction

/-!
# The pattern of literals and comments

What is hidden is found by a pattern: a closed literal of either quote, a block comment that ends at
the next `*/` or at the end of the text, or a line comment. A pattern is matched with backtracking,
which is to say that a match goes on with what follows it, and where that leads nowhere the next way
to match is tried (`Pattern.run`).

For this pattern no repetition is ever taken back. In a literal, the closing quote stands where no
further repetition is possible, and the shortest block comment ends at the first `*/`. So the pattern
finds what `Mask.hidden?` cuts off in one pass (`Mask.hidden?_eq`), and in a text whose literals are
closed its matches are the literals and comments in order (`Pattern.matchesFrom_closed`).
-/

namespace IdlFormat

/-- Patterns that are matched with backtracking. -/
inductive Pattern where
  /-- One of the characters that are admitted. -/
  | one (admits : Char → Bool)
  /-- One pattern after the other. -/
  | sequence (first second : Pattern)
  /-- The first pattern, or the second one where the first one leads to no match. -/
  | choice (first second : Pattern)
  /-- A pattern repeated, as often as leads to a match. -/
  | greedy (body : Pattern)
  /-- A pattern repeated, as seldom as leads to a match. -/
  | lazy (body : Pattern)
  /-- The end of the text. -/
  | ending

namespace Pattern

/-- Repeats a matcher as often as possible before it goes on. A repetition takes something. -/
def runGreedy (body : (Text → Option Text) → Text → Option Text) (next : Text → Option Text)
    (text : Text) : Option Text :=
  (body (fun rest => if rest.length < text.length then runGreedy body next rest else none) text).or
    (next text)
termination_by text.length

/-- Repeats a matcher only where it cannot go on. A repetition takes something. -/
def runLazy (body : (Text → Option Text) → Text → Option Text) (next : Text → Option Text)
    (text : Text) : Option Text :=
  (next text).or
    (body (fun rest => if rest.length < text.length then runLazy body next rest else none) text)
termination_by text.length

/-- Matches a pattern at the front of a text and goes on behind the match; of the ways to match, the
first one counts from which the rest leads to a result. -/
def run : Pattern → (Text → Option Text) → Text → Option Text
  | one _, _, [] => none
  | one admits, next, c :: rest => if admits c then next rest else none
  | sequence first second, next, text => first.run (second.run next) text
  | choice first second, next, text => (first.run next text).or (second.run next text)
  | greedy body, next, text => runGreedy body.run next text
  | lazy body, next, text => runLazy body.run next text
  | ending, next, text => if text.isEmpty then next text else none

/-- The match of a pattern at the front of a text, and what follows it. -/
def match? (pattern : Pattern) (text : Text) : Option (Text × Text) :=
  (pattern.run some text).map fun rest => (text.take (text.length - rest.length), rest)

/-- The successive matches of a pattern that take something, with their positions. -/
def matchesFrom (pattern : Pattern) (position : Nat) : Text → List (Nat × Text)
  | [] => []
  | c :: rest =>
      match pattern.match? (c :: rest) with
      | some (taken, after) =>
          if _shorter : after.length < (c :: rest).length then
            (position, taken) :: matchesFrom pattern (position + taken.length) after
          else matchesFrom pattern (position + 1) rest
      | none => matchesFrom pattern (position + 1) rest
termination_by text => text.length
decreasing_by
  · exact _shorter
  · simp
  · simp

/-- One character. -/
def char (c : Char) : Pattern :=
  one (· = c)

/-- What a literal holds between its quotes: other characters of the line, and pairs of a backslash
and a character of the line. -/
def quotedPart (quote : Char) : Pattern :=
  choice (one fun c => c != quote && c != '\\' && c != '\n')
    (sequence (char '\\') (one (· != '\n')))

/-- A closed literal after its opening quote. -/
def quotedRest (quote : Char) : Pattern :=
  sequence (greedy (quotedPart quote)) (char quote)

/-- A closed literal. -/
def quoted (quote : Char) : Pattern :=
  sequence (char quote) (quotedRest quote)

/-- A block comment after its first two characters. -/
def blockRest : Pattern :=
  sequence (lazy (one fun _ => true)) (choice (sequence (char '*') (char '/')) ending)

/-- A block comment. -/
def blockComment : Pattern :=
  sequence (sequence (char '/') (char '*')) blockRest

/-- A line comment. -/
def lineComment : Pattern :=
  sequence (sequence (char '/') (char '/')) (greedy (one (· != '\n')))

/-- What is hidden. -/
def hidden : Pattern :=
  choice (quoted '"') (choice (quoted '\'') (choice blockComment lineComment))

variable {next : Text → Option Text}

theorem run_greedy (body : Pattern) (next : Text → Option Text) (text : Text) :
    (greedy body).run next text =
      (body.run (fun rest => if rest.length < text.length then (greedy body).run next rest else none)
        text).or (next text) := by
  simp only [run]
  rw [runGreedy]

theorem run_lazy (body : Pattern) (next : Text → Option Text) (text : Text) :
    (lazy body).run next text =
      (next text).or
        (body.run (fun rest => if rest.length < text.length then (lazy body).run next rest else none)
          text) := by
  simp only [run]
  rw [runLazy]

@[simp]
theorem run_sequence (first second : Pattern) (text : Text) :
    (sequence first second).run next text = first.run (second.run next) text := rfl

@[simp]
theorem run_choice (first second : Pattern) (text : Text) :
    (choice first second).run next text = (first.run next text).or (second.run next text) := rfl

@[simp]
theorem run_char_cons (c d : Char) (rest : Text) :
    (char c).run next (d :: rest) = if d = c then next rest else none := by
  simp [char, run]

/-- A repetition in a literal takes a character that needs no backslash, or a pair. -/
theorem run_quotedPart_cons {quote c : Char} (notBackslash : c ≠ '\\') (rest : Text) :
    (quotedPart quote).run next (c :: rest) =
      if c = quote ∨ c = '\n' then none else next rest := by
  by_cases stops : c = quote ∨ c = '\n'
  · rw [if_pos stops]
    rcases stops with rfl | rfl <;> simp [quotedPart, run, notBackslash]
  · rw [if_neg stops]
    rcases not_or.1 stops with ⟨notQuote, notBreak⟩
    simp [quotedPart, run, notBackslash, notQuote, notBreak]

theorem run_quotedPart_pair (quote d : Char) (rest : Text) :
    (quotedPart quote).run next ('\\' :: d :: rest) = if d = '\n' then none else next rest := by
  simp [quotedPart, run]

theorem run_quotedRest_step (quote : Char) (text : Text) :
    (quotedRest quote).run some text =
      ((quotedPart quote).run (fun rest =>
        if rest.length < text.length then (quotedRest quote).run some rest else none) text).or
        ((char quote).run some text) :=
  run_greedy _ _ _

theorem run_quotedRest_nil (quote : Char) : (quotedRest quote).run some [] = none := by
  rw [run_quotedRest_step]
  rfl

theorem run_quotedRest_cons {quote c : Char} (notBackslash : c ≠ '\\') (rest : Text) :
    (quotedRest quote).run some (c :: rest) =
      if c = quote then some rest
      else if c = '\n' then none else (quotedRest quote).run some rest := by
  rw [run_quotedRest_step, run_quotedPart_cons notBackslash, run_char_cons]
  by_cases closes : c = quote
  · simp [closes]
  · simp [closes]

theorem run_quotedRest_lone {quote : Char} (notBackslash : quote ≠ '\\') :
    (quotedRest quote).run some ['\\'] = none := by
  rw [run_quotedRest_step, run_char_cons, if_neg notBackslash.symm, Option.or_none]
  simp [quotedPart, run]

theorem run_quotedRest_pair {quote : Char} (notBackslash : quote ≠ '\\') (d : Char) (rest : Text) :
    (quotedRest quote).run some ('\\' :: d :: rest) =
      if d = '\n' then none else (quotedRest quote).run some rest := by
  have shorter : rest.length < ('\\' :: d :: rest).length := by
    simp only [List.length_cons]
    omega
  rw [run_quotedRest_step, run_quotedPart_pair, run_char_cons, if_neg notBackslash.symm,
    Option.or_none, if_pos shorter]

/-- The repetitions in a literal lead to the quote that closes it, or to none. -/
theorem run_quotedRest {quote : Char} (opens : isQuote quote) (text : Text) :
    (quotedRest quote).run some text = (Mask.literal? quote false text).map (·.2) := by
  have notBreak := Literal.quote_ne_break opens
  have notBackslash := Literal.quote_ne_backslash opens
  have single {c : Char} (other : c ≠ '\\') (rest : Text)
      (later : (quotedRest quote).run some rest = (Mask.literal? quote false rest).map (·.2)) :
      (quotedRest quote).run some (c :: rest) =
        (Mask.literal? quote false (c :: rest)).map (·.2) := by
    rw [run_quotedRest_cons other, later]
    by_cases closes : c = quote
    · simp [closes, notBreak, Mask.literal?]
    · by_cases atBreak : c = '\n' <;>
        simp [atBreak, closes, notBreak.symm, other, Mask.literal?, Function.comp_def]
  induction text using List.twoStepInduction with
  | nil => exact run_quotedRest_nil quote
  | singleton c =>
      by_cases backslash : c = '\\'
      · subst backslash
        simp [run_quotedRest_lone notBackslash, Mask.literal?, notBackslash.symm]
      · exact single backslash [] (run_quotedRest_nil quote)
  | cons_cons c d rest ih later =>
      by_cases backslash : c = '\\'
      · subst backslash
        rw [run_quotedRest_pair notBackslash, ih]
        by_cases atBreak : d = '\n' <;>
          simp [atBreak, Mask.literal?, notBackslash.symm, Function.comp_def]
      · exact single backslash _ (later d)

theorem run_pair_eq_none {a b c : Char} {rest : Text} (other : ¬(c = a ∧ rest.head? = some b)) :
    (sequence (char a) (char b)).run next (c :: rest) = none := by
  rw [run_sequence, run_char_cons]
  by_cases first : c = a
  · rw [if_pos first]
    cases rest with
    | nil => rfl
    | cons d rest =>
        have notSecond : d ≠ b := by simpa [first] using other
        rw [run_char_cons, if_neg notSecond]
  · rw [if_neg first]

/-- The shortest block comment ends at the first place where one can end. -/
theorem run_blockRest (text : Text) :
    blockRest.run some text = some (Comment.throughClose text).2 := by
  have step (text : Text) : blockRest.run some text =
      ((choice (sequence (char '*') (char '/')) ending).run some text).or
        ((one fun _ => true).run (fun rest =>
          if rest.length < text.length then blockRest.run some rest else none) text) :=
    run_lazy _ _ _
  fun_induction Comment.throughClose text with
  | case1 => rw [step]; rfl
  | case2 rest =>
      rw [step]
      rfl
  | case3 c rest noClose taken after cut ih =>
      have goesOn : (sequence (char '*') (char '/')).run some (c :: rest) = none := by
        apply run_pair_eq_none
        rintro ⟨star, slash⟩
        obtain ⟨tail, same⟩ := List.head?_eq_some_iff.1 slash
        exact noClose tail star same
      rw [cut] at ih
      rw [step, run_choice, goesOn]
      simp [run, ih]

theorem run_lineRest (text : Text) :
    (greedy (one (· != '\n'))).run some text = some (text.dropWhile (· != '\n')) := by
  induction text with
  | nil =>
      rw [run_greedy]
      rfl
  | cons c rest ih =>
      rw [run_greedy]
      by_cases atBreak : c = '\n'
      · simp [run, atBreak]
      · rw [run, ih]
        simp [atBreak]

/-- The pattern leads where `Mask.hidden?` does. -/
theorem run_hidden (text : Text) : hidden.run some text = (Mask.hidden? text).map (·.2) := by
  cases found : Comment.form? text with
  | some form =>
      cases form with
      | line =>
          obtain ⟨body, rfl⟩ := Comment.eq_of_form?_eq_line found
          simp [hidden, quoted, blockComment, lineComment, run_lineRest, Mask.hidden?, found,
            Comment.cut]
      | block =>
          obtain ⟨body, rfl⟩ := Comment.eq_of_form?_eq_block found
          simp [hidden, quoted, blockComment, run_blockRest, Mask.hidden?, found, Comment.cut]
  | none =>
      cases text with
      | nil => rfl
      | cons c rest =>
          have noOpener := (Comment.form?_cons_eq_none_iff c rest).1 found
          simp only [Comment.opens, Bool.and_eq_false_imp, decide_eq_true_eq, Bool.or_eq_false_iff,
            decide_eq_false_iff_not] at noOpener
          have noLine : lineComment.run some (c :: rest) = none :=
            run_pair_eq_none fun opens => (noOpener opens.1).1 opens.2
          have noBlock : blockComment.run some (c :: rest) = none :=
            run_pair_eq_none fun opens => (noOpener opens.1).2 opens.2
          rw [hidden, run_choice, run_choice, run_choice, noLine, noBlock, Option.or_none,
            Option.or_none, quoted, quoted, run_sequence, run_sequence, run_char_cons,
            run_char_cons, Mask.hidden?, found]
          simp only [isQuote_iff]
          by_cases double : c = '"'
          · simp [double, run_quotedRest, isQuote, Function.comp_def]
          · by_cases single : c = '\''
            · simp [single, run_quotedRest, isQuote, Function.comp_def]
            · simp [double, single]

theorem match?_hidden (text : Text) :
    hidden.match? text =
      (Mask.hidden? text).map fun (_, rest) =>
        (text.take (text.length - rest.length), rest) := by
  rw [match?, run_hidden, Option.map_map]
  rfl

end Pattern

namespace Mask

/-- The form in which a match is put back. -/
def stored (taken : Text) : Text :=
  match Comment.form? taken with
  | some form => Comment.blockForm form taken
  | none => taken

theorem form?_cut {form : Comment.Form} {text : Text} (opens : Comment.form? text = some form) :
    Comment.form? (Comment.cut form text).1 = some form := by
  cases form with
  | line =>
      obtain ⟨body, rfl⟩ := Comment.eq_of_form?_eq_line opens
      rfl
  | block =>
      obtain ⟨body, rfl⟩ := Comment.eq_of_form?_eq_block opens
      rfl

theorem literal?_append_rest {quote : Char} {escaped : Bool} {text taken rest : Text}
    (found : literal? quote escaped text = some (taken, rest)) : taken ++ rest = text := by
  fun_induction literal? quote escaped text generalizing taken rest with
  | case1 => simp at found
  | case2 => simp at found
  | case3 =>
      obtain ⟨rfl, rfl⟩ := Prod.mk.inj (Option.some.inj found)
      rfl
  | case4 escaped c tail _ _ ih =>
      obtain ⟨⟨inner, after⟩, matched, same⟩ := Option.map_eq_some_iff.1 found
      obtain ⟨rfl, rfl⟩ := Prod.mk.inj same
      rw [List.cons_append, ih matched]

/-- What is hidden is a match of the pattern, in the form in which it is put back. -/
theorem hidden?_eq (text : Text) :
    hidden? text =
      (Pattern.hidden.match? text).map fun (taken, rest) => (stored taken, rest) := by
  have front {taken rest : Text} (parts : taken ++ rest = text) :
      text.take (text.length - rest.length) = taken := by
    rw [← parts, List.length_append, Nat.add_sub_cancel, List.take_left]
  rw [Pattern.match?_hidden, Option.map_map]
  unfold hidden?
  split
  · next form opens =>
      simp [front (Comment.cut_append form text), stored, form?_cut opens]
  · split
    · rfl
    · next c rest noComment =>
        split
        · next quoted =>
            cases found : literal? c false rest with
            | none => rfl
            | some cut =>
                obtain ⟨taken, after⟩ := cut
                have parts : c :: taken ++ after = c :: rest := by
                  rw [List.cons_append, literal?_append_rest found]
                simp only [Option.map_some, Function.comp_apply, front parts, stored,
                  Comment.form?_of_isQuote quoted]
        · rfl

end Mask

namespace Segment

/-- The literals and comments among segments, with their positions. -/
def visitsFrom (position : Nat) : List Segment → List (Nat × Text)
  | [] => []
  | .code _ :: segments => visitsFrom (position + 1) segments
  | segment :: segments =>
      (position, segment.text) :: visitsFrom (position + segment.text.length) segments

theorem visitsFrom_cons {segment : Segment} (isHidden : ∀ c, segment ≠ .code c) (position : Nat)
    (segments : List Segment) :
    visitsFrom position (segment :: segments) =
      (position, segment.text) :: visitsFrom (position + segment.text.length) segments := by
  cases segment with
  | code c => exact absurd rfl (isHidden c)
  | literal text repair => rfl
  | comment form text => rfl

end Segment

namespace Pattern

open Segment

theorem matchesFrom_of_match? {pattern : Pattern} {text taken rest : Text}
    (found : pattern.match? text = some (taken, rest)) (shorter : rest.length < text.length)
    (position : Nat) :
    pattern.matchesFrom position text =
      (position, taken) :: pattern.matchesFrom (position + taken.length) rest := by
  cases text with
  | nil => simp at shorter
  | cons c tail =>
      rw [matchesFrom]
      simp only [found, dif_pos shorter]

theorem matchesFrom_cons {pattern : Pattern} {c : Char} {rest : Text}
    (none : pattern.match? (c :: rest) = none) (position : Nat) :
    pattern.matchesFrom position (c :: rest) = pattern.matchesFrom (position + 1) rest := by
  rw [matchesFrom]
  simp only [none]

/-- A literal or a comment that fits what follows it is one match, once it is closed. -/
theorem matchesFrom_closed_append {segment : Segment} (isHidden : ∀ c, segment ≠ .code c)
    {rest : Text} (fits : segment.Fits rest.head?) (position : Nat) :
    hidden.matchesFrom position (segment.closed ++ rest) =
      (position, segment.closed) :: hidden.matchesFrom (position + segment.closed.length) rest := by
  have filled : 0 < segment.closed.length := by
    rw [← text_close]
    exact List.length_pos_iff.2 fits.close.text_ne_nil
  have found : hidden.match? (segment.closed ++ rest) = some (segment.closed, rest) := by
    simp [match?_hidden, Mask.hidden?_closed_append isHidden fits]
  apply matchesFrom_of_match? found
  rw [List.length_append]
  omega

/-- In a text whose literals are closed, the matches of the pattern are the literals and comments. -/
theorem matchesFrom_closed {segments : List Segment} (lexed : Lexed segments) (position : Nat) :
    hidden.matchesFrom position (segments.flatMap closed) =
      visitsFrom position (segments.map close) := by
  induction segments generalizing position with
  | nil =>
      rw [List.flatMap_nil, matchesFrom]
      rfl
  | cons segment segments ih =>
      have fits : segment.Fits (segments.flatMap closed).head? := by
        rw [head?_closed lexed.2]
        exact lexed.1
      rw [List.flatMap_cons, List.map_cons]
      rcases segment.code_or_hidden with ⟨c, rfl⟩ | isHidden
      · have shown : hidden.match? (c :: segments.flatMap closed) = none := by
          rw [match?_hidden, Mask.hidden?_code fits]
          rfl
        exact (matchesFrom_cons shown position).trans (ih lexed.2 (position + 1))
      · have stays : ∀ c, segment.close ≠ .code c := by
          cases segment with
          | code c => exact absurd rfl (isHidden c)
          | literal text repair => simp [close]
          | comment form text => simp [close]
        rw [matchesFrom_closed_append isHidden fits, visitsFrom_cons stays, text_close,
          ih lexed.2]

end Pattern

end IdlFormat
