import IdlFormat.Source.Comment
import IdlFormat.Source.Literal

/-!
# Segments

Read from left to right, a source text falls into literals, comments and single characters of code.
Quotes in comments open no literal and comment openers in literals open no comment. On this view an
open literal is repaired in place: closing the literals of a text changes nothing else, and the
repaired text reads the same way once its lines are joined.
-/

namespace IdlFormat

/-- A literal, a comment or a character of code. -/
inductive Segment where
  /-- A character outside literals and comments. -/
  | code (c : Char)
  /-- A literal, and what has to be added to close it. -/
  | literal (text repair : Text)
  /-- A comment. -/
  | comment (form : Comment.Form) (text : Text)
deriving DecidableEq, Repr

namespace Segment

/-- The segments of a text in order. -/
def split (text : Text) : List Segment :=
  match _opens : Comment.form? text with
  | some form =>
      .comment form (Comment.cut form text).1 :: split (Comment.cut form text).2
  | none =>
      match text with
      | [] => []
      | c :: rest =>
          if isQuote c then
            let scan := Literal.scan c false rest
            .literal (c :: scan.body) scan.repair :: split scan.rest
          else .code c :: split rest
termination_by text.length
decreasing_by
  · exact Comment.length_cut_lt _opens
  · have := Literal.length_rest_le c false rest
    simp only [List.length_cons]
    omega
  · simp

/-- The characters of a segment. -/
def text : Segment → Text
  | .code c => [c]
  | .literal text _ => text
  | .comment _ text => text

/-- The characters of a segment, an open literal closed. -/
def closed : Segment → Text
  | .literal text repair => text ++ repair
  | segment => segment.text

end Segment

/-- Closes every literal that is open at a line break or at the end of the text. -/
def closeLiterals (text : Text) : Text :=
  (Segment.split text).flatMap Segment.closed

end IdlFormat
