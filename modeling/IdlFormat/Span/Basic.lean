import IdlFormat.Span.CloseBrace
import IdlFormat.Span.CodeUnit
import IdlFormat.Span.Directive

/-!
# Spans

Source text is cut from left to right into spans with nothing but blanks between them. The first
character that is not blank decides which rule cuts the next span; every rule takes at least that
character, so the cutting ends on every text, however malformed.
-/

namespace IdlFormat

/-- A stretch of source text that one rule cut. -/
inductive Span where
  /-- A comment. -/
  | comment (form : Comment.Form) (text : Text)
  /-- A directive with its continuation lines. -/
  | directive (text : Text)
  /-- A block in square brackets. -/
  | attributeBlock (text : Text)
  /-- An opening brace. -/
  | braceOpen
  /-- A closing brace: the text of its token, and the source it covers. -/
  | braceClose (token source : Text)
  /-- A unit of code. -/
  | codeUnit (text : Text)
deriving DecidableEq, Repr

namespace Span

/-- The source that a span covers. -/
def source : Span → Text
  | .comment _ text => text
  | .directive text => text
  | .attributeBlock text => text
  | .braceOpen => ['{']
  | .braceClose _ source => source
  | .codeUnit text => text

/-- Cuts the span that starts with a character off a text. -/
def cut (c : Char) (rest : Text) : Span × Text :=
  match Comment.form? (c :: rest) with
  | some form =>
      let comment := Comment.cut form (c :: rest)
      (.comment form comment.1, comment.2)
  | none =>
      if c = '#' then
        let directive := Directive.cut (c :: rest)
        (.directive directive.1, directive.2)
      else if c = '[' then
        let block := Bracket.cutBlock (c :: rest)
        (.attributeBlock block.1, block.2)
      else if c = '{' then (.braceOpen, rest)
      else if c = '}' then
        let brace := CloseBrace.cut rest
        (.braceClose brace.token (c :: brace.taken), brace.rest)
      else
        let codeUnit := CodeUnit.cut (c :: rest)
        (.codeUnit codeUnit.1, codeUnit.2)

theorem length_cut_lt (c : Char) (rest : Text) : (cut c rest).2.length < (c :: rest).length := by
  unfold cut
  split
  · next form opens => exact Comment.length_cut_lt opens
  · next noComment =>
      split
      · next hash => exact Directive.length_cut_lt (by simp [hash]) rest
      · split
        · exact Bracket.length_cutBlock_lt c rest
        · split
          · simp
          · split
            · have parts := congrArg List.length (CloseBrace.taken_append_rest rest)
              simp only [List.length_append, List.length_cons] at parts ⊢
              omega
            · next notOpen notClose => exact CodeUnit.length_cut_lt noComment notOpen notClose

/-- The spans of a source text in order. -/
def split (text : Text) : List Span :=
  match _start : text.dropWhile isBlank with
  | [] => []
  | c :: rest => (cut c rest).1 :: split (cut c rest).2
termination_by text.length
decreasing_by
  have shorter := (List.dropWhile_sublist isBlank (l := text)).length_le
  have := length_cut_lt c rest
  rw [_start] at shorter
  omega

/-- Whether the body of a brace ends before the given spans. -/
def closesBody : List Span → Bool
  | [] => true
  | .braceClose _ _ :: _ => true
  | _ => false

end Span

end IdlFormat
