import IdlFormat.Source.Bracket
import IdlFormat.Source.Comment
import IdlFormat.Text.Blank

/-!
# Units

A unit is a stretch of code that becomes one statement, one declaration or a list of enumeration
members. It ends after a semicolon or before a brace, a comment or a directive, each of which counts
only where no parenthesis and no angle bracket is open. Literals, square brackets and enclosed
comments are passed over whole.
-/

namespace IdlFormat

namespace CodeUnit

/-- What is known of a unit at a point inside it. -/
structure State where
  /-- The parentheses opened less those closed. -/
  parens : Int := 0
  /-- The angle brackets opened less those closed. -/
  angles : Int := 0
  /-- Whether only blanks stand between the last line break of the unit and this point. -/
  atLineStart : Bool := false
deriving DecidableEq, Repr

/-- Whether no parenthesis and no angle bracket is open. -/
def State.isTop (state : State) : Bool :=
  state.parens = 0 && state.angles = 0

/-- The state after a character of code. -/
def State.next (state : State) (c : Char) : State where
  parens := if c = '(' then state.parens + 1 else if c = ')' then state.parens - 1 else state.parens
  angles := if c = '<' then state.angles + 1 else if c = '>' then state.angles - 1 else state.angles
  atLineStart := c = '\n' || (state.atLineStart && isBlank c)

/-- The state after a literal, a block in square brackets or a comment. -/
def State.skip (state : State) : State :=
  { state with atLineStart := false }

/-- Whether a unit ends before a character that stands where no bracket is open. -/
def State.stopsBefore (state : State) (c : Char) : Bool :=
  state.isTop && (c = '{' || c = '}' || (c = '#' && state.atLineStart))

/-- Cuts the rest of a unit off the front of a text. -/
def cutFrom (state : State) (text : Text) : Text × Text :=
  match _opens : Comment.form? text with
  | some form =>
      if state.isTop then ([], text)
      else
        let comment := Comment.cut form text
        let more := cutFrom state.skip comment.2
        (comment.1 ++ more.1, more.2)
  | none =>
      match text with
      | [] => ([], [])
      | c :: rest =>
          if isQuote c then
            let literal := Literal.scan c false rest
            let more := cutFrom state.skip literal.rest
            (c :: literal.body ++ more.1, more.2)
          else if c = '[' then
            let block := Bracket.cutBlock (c :: rest)
            let more := cutFrom state.skip block.2
            (block.1 ++ more.1, more.2)
          else if state.stopsBefore c then ([], c :: rest)
          else if state.isTop && c = ';' then ([c], rest)
          else
            let more := cutFrom (state.next c) rest
            (c :: more.1, more.2)
termination_by text.length
decreasing_by
  · exact Comment.length_cut_lt _opens
  · have := Literal.length_rest_le c false rest
    simp only [List.length_cons]
    omega
  · exact Bracket.length_cutBlock_lt c rest
  · simp

/-- Cuts the unit off a text that starts with one. -/
def cut (text : Text) : Text × Text :=
  cutFrom {} text

theorem cutFrom_append (state : State) (text : Text) :
    (cutFrom state text).1 ++ (cutFrom state text).2 = text := by
  fun_induction cutFrom state text with
  | case1 => rfl
  | case2 state text form opens _ comment more ih =>
      simp only [more, comment, List.append_assoc] at ih ⊢
      rw [ih, Comment.cut_append]
  | case3 => rfl
  | case4 state c rest _ _ literal more ih =>
      simp only [more, literal, List.append_assoc, List.cons_append] at ih ⊢
      rw [ih, Literal.body_append_rest]
  | case5 state rest _ _ block more ih =>
      simp only [more, block, List.append_assoc] at ih ⊢
      rw [ih, Bracket.cutBlock, Bracket.cutClosed_append]
  | case6 => rfl
  | case7 => rfl
  | case8 state c rest _ _ _ _ _ more ih =>
      simp only [more, List.cons_append] at ih ⊢
      rw [ih]

/-- A unit is not empty, if no other rule applies where it starts. -/
theorem length_cut_lt {c : Char} {rest : Text} (noComment : Comment.form? (c :: rest) = none)
    (notOpen : c ≠ '{') (notClose : c ≠ '}') :
    (cut (c :: rest)).2.length < (c :: rest).length := by
  have parts := congrArg List.length (cutFrom_append {} (c :: rest))
  have nonempty : (cut (c :: rest)).1 ≠ [] := by
    have block : (Bracket.cutBlock (c :: rest)).1 ≠ [] := by
      intro empty
      have := Bracket.length_cutBlock_lt c rest
      have parts := congrArg List.length (Bracket.cutClosed_append .outside 0 (c :: rest))
      simp only [Bracket.cutBlock, List.length_append] at this empty parts
      simp only [empty, List.length_nil] at parts
      omega
    unfold cut cutFrom
    split
    · next form opens => simp [noComment] at opens
    · simp only [State.stopsBefore, notOpen, notClose]
      split
      · simp
      · split
        · simp [block]
        · split
          · simp_all
          · split <;> simp
  have := List.length_pos_iff.mpr nonempty
  simp only [List.length_append, cut] at parts this ⊢
  omega

end CodeUnit

end IdlFormat
