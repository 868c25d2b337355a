import IdlFormat.Text.Blank

/-!
# Layout of block comments

A comment of several lines is indented anew. Continuation lines that start with a star are aligned
one column to the right of the opening slash. The others keep their indentation relative to the
least indented of them.
-/

namespace IdlFormat

namespace BlockComment

/-- The number of blanks that a line starts with. -/
def leadingBlanks (line : Text) : Nat :=
  (line.takeWhile isBlank).length

/-- Whether a line neither is blank nor starts with a star. -/
def isPlain (line : Text) : Bool :=
  let stripped := line.trim
  !stripped.isEmpty && stripped.head? != some '*'

/-- The indentation of the least indented plain line. -/
def margin (lines : List Text) : Nat :=
  (((lines.filter isPlain).map leadingBlanks).min?).getD 0

/-- A continuation line, indented anew. -/
def formatLine (indent : Text) (margin : Nat) (line : Text) : Text :=
  let stripped := line.trim
  if stripped.isEmpty then []
  else if stripped.head? = some '*' then indent ++ [' '] ++ stripped
  else indent ++ line.trimEnd.drop margin

/-- A comment with each of its lines indented anew. -/
def format (indent : Text) (comment : Text) : Text :=
  match Text.splitOn '\n' comment with
  | [] => indent
  | first :: rest =>
      Text.joinLines ((indent ++ first.trim) :: rest.map (formatLine indent (margin rest)))

end BlockComment

end IdlFormat
