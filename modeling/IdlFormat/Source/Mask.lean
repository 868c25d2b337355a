import IdlFormat.Source.Segment
import IdlFormat.Text.Numeral

/-!
# Masks

Respacing must not touch literals and comments. They are therefore replaced by placeholders first,
a number between two NUL characters each, and put back afterwards. Line comments are put back in
block form, because respaced text ends up on one line.

A placeholder that the source itself contains is indistinguishable from one of these; when its
number is too long to be read the text cannot be restored, which is the one way in which formatting
fails.
-/

namespace IdlFormat

namespace Mask

/-- The character on both sides of a placeholder's number. -/
def mark : Char := Char.ofNat 0

/-- Matches the rest of a closed literal after its opening quote, up to and including the closing
one; a line break before it is no match. -/
def literal? (quote : Char) (escaped : Bool) : Text → Option (Text × Text)
  | [] => none
  | c :: rest =>
      if c = '\n' then none
      else if !escaped && c = quote then some ([c], rest)
      else
        (literal? quote (!escaped && c = '\\') rest).map fun (taken, after) => (c :: taken, after)

/-- Matches a closed literal or a comment at the front of a text, and gives it in the form in which
it is put back, with what follows it. -/
def hidden? (text : Text) : Option (Text × Text) :=
  match Comment.form? text with
  | some form =>
      let (comment, rest) := Comment.cut form text
      some (Comment.blockForm form comment, rest)
  | none =>
      match text with
      | [] => none
      | c :: rest =>
          if isQuote c then
            (literal? c false rest).map fun (taken, after) => (c :: taken, after)
          else none

theorem length_literal?_le {quote : Char} {escaped : Bool} {text taken rest : Text}
    (found : literal? quote escaped text = some (taken, rest)) :
    rest.length ≤ text.length := by
  fun_induction literal? quote escaped text generalizing taken rest with
  | case1 => simp at found
  | case2 => simp at found
  | case3 => simp_all
  | case4 escaped c tail _ _ ih =>
      obtain ⟨⟨inner, after⟩, matched, same⟩ := Option.map_eq_some_iff.1 found
      simp only [Prod.mk.injEq] at same
      have := ih matched
      simp only [List.length_cons, ← same.2]
      omega

theorem length_hidden?_lt {text hidden rest : Text} (found : hidden? text = some (hidden, rest)) :
    rest.length < text.length := by
  unfold hidden? at found
  split at found
  · next form opens =>
      simp only [Option.some.injEq, Prod.mk.injEq] at found
      rw [← found.2]
      exact Comment.length_cut_lt opens
  · split at found
    · simp at found
    · split at found
      · obtain ⟨⟨inner, after⟩, matched, same⟩ := Option.map_eq_some_iff.1 found
        simp only [Prod.mk.injEq] at same
        have := length_literal?_le matched
        simp only [List.length_cons, ← same.2]
        omega
      · simp at found

/-- A character that stays, or a literal or comment that is hidden. -/
inductive Piece where
  /-- A character that stays. -/
  | plain (c : Char)
  /-- A literal or comment, in the form in which it is put back. -/
  | hidden (text : Text)
deriving DecidableEq, Repr

/-- The pieces of a text in order. -/
def pieces (text : Text) : List Piece :=
  match _found : hidden? text with
  | some (hidden, rest) => .hidden hidden :: pieces rest
  | none =>
      match text with
      | [] => []
      | c :: rest => .plain c :: pieces rest
termination_by text.length
decreasing_by
  · exact length_hidden?_lt _found
  · simp

/-- The placeholder of a number. -/
def placeholder (number : Nat) : Text :=
  mark :: Text.ofNat number ++ [mark]

/-- Writes pieces with placeholders for the hidden ones, numbered from `next`. -/
def write (next : Nat) : List Piece → Text
  | [] => []
  | .plain c :: pieces => c :: write next pieces
  | .hidden _ :: pieces => placeholder next ++ write (next + 1) pieces

/-- The hidden texts of pieces in order. -/
def saved (pieces : List Piece) : List Text :=
  pieces.filterMap fun
    | .plain _ => none
    | .hidden text => some text

end Mask

/-- A text whose literals and comments are hidden. -/
structure Masked where
  /-- The text with placeholders. -/
  text : Text
  /-- What the placeholders stand for, by number. -/
  saved : List Text
deriving DecidableEq, Repr

/-- Hides the literals and comments of a text, after closing the literals that are open. -/
def mask (text : Text) : Masked :=
  let pieces := Mask.pieces (closeLiterals text)
  ⟨Mask.write 0 pieces, Mask.saved pieces⟩

namespace Mask

/-- Matches a placeholder at the front of a text: its digits, and what follows it. -/
def placeholder? : Text → Option (Text × Text)
  | [] => none
  | c :: rest =>
      if c = mark && !(rest.takeWhile isDecimalDigit).isEmpty then
        match rest.dropWhile isDecimalDigit with
        | [] => none
        | d :: after => if d = mark then some (rest.takeWhile isDecimalDigit, after) else none
      else none

theorem length_placeholder?_lt {text digits rest : Text}
    (found : placeholder? text = some (digits, rest)) : rest.length < text.length := by
  unfold placeholder? at found
  split at found
  · simp at found
  · next c tail =>
      split at found
      · split at found
        · simp at found
        · next d after cut =>
            split at found
            · simp only [Option.some.injEq, Prod.mk.injEq] at found
              have := (List.dropWhile_sublist isDecimalDigit (l := tail)).length_le
              rw [cut] at this
              simp only [List.length_cons, ← found.2] at this ⊢
              omega
            · simp at found
      · simp at found

/-- Puts the saved texts in the place of their placeholders. -/
def restore (saved : List Text) (text : Text) : Except Numeral.TooLong Text :=
  match _found : placeholder? text with
  | some (digits, rest) => do
      let number ← Numeral.ofDigits digits
      let restored ← restore saved rest
      return saved.getD number (mark :: digits ++ [mark]) ++ restored
  | none =>
      match text with
      | [] => .ok []
      | c :: rest => do
          let restored ← restore saved rest
          return c :: restored
termination_by text.length
decreasing_by
  · exact length_placeholder?_lt _found
  · simp

end Mask

/-- Puts the saved texts back; a text for which nothing is saved is left alone. -/
def unmask (saved : List Text) (text : Text) : Except Numeral.TooLong Text :=
  if saved.isEmpty then .ok text else Mask.restore saved text

end IdlFormat
