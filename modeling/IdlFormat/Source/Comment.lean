import IdlFormat.Text.Blank

/-!
# Comments

A line comment runs from `//` up to the end of its line, a block comment from `/*` through the next
`*/`, or to the end of the text if there is none. The scanners of this file cut a comment off the
front of a text.
-/

namespace IdlFormat

/-- The two forms of comments. -/
inductive Comment.Form where
  /-- From `//` to the end of the line. -/
  | line
  /-- From `/*` through `*/`. -/
  | block
deriving DecidableEq, Repr

namespace Comment

/-- The form of the comment that a text starts with, if it starts with one. -/
def form? : Text → Option Form
  | '/' :: '/' :: _ => some .line
  | '/' :: '*' :: _ => some .block
  | _ => none

/-- Cuts a text after its first `*/`. -/
def throughClose : Text → Text × Text
  | [] => ([], [])
  | '*' :: '/' :: rest => (['*', '/'], rest)
  | c :: rest =>
      let (taken, after) := throughClose rest
      (c :: taken, after)

/-- Cuts the comment off a text that starts with one. -/
def cut : Form → Text → Text × Text
  | .line, text => (text.takeWhile (· != '\n'), text.dropWhile (· != '\n'))
  | .block, text =>
      let (taken, rest) := throughClose (text.drop 2)
      (text.take 2 ++ taken, rest)

theorem throughClose_append (text : Text) :
    (throughClose text).1 ++ (throughClose text).2 = text := by
  fun_induction throughClose text <;> simp_all

theorem cut_append (form : Form) (text : Text) :
    (cut form text).1 ++ (cut form text).2 = text := by
  cases form with
  | line => simp [cut]
  | block => simp [cut, throughClose_append]

theorem length_cut_lt {form : Form} {text : Text} (opens : form? text = some form) :
    (cut form text).2.length < text.length := by
  have parts := congrArg List.length (cut_append form text)
  have nonempty : (cut form text).1 ≠ [] := by
    cases form <;> unfold form? at opens <;> split at opens <;> simp_all [cut]
  have := List.length_pos_iff.mpr nonempty
  simp only [List.length_append] at parts
  omega

/-- Writes `* /` for each `*/`. -/
def breakCloses : Text → Text
  | [] => []
  | '*' :: '/' :: rest => '*' :: ' ' :: '/' :: breakCloses rest
  | c :: rest => c :: breakCloses rest

/-- A comment in block form, so that text may follow it on its line. -/
def blockForm (form : Form) (comment : Text) : Text :=
  match form with
  | .block => comment
  | .line =>
      let body := breakCloses (Text.trim (comment.drop 2))
      if body.isEmpty then "/* */".toList else "/* ".toList ++ body ++ " */".toList

end Comment

end IdlFormat
