import IdlFormat.Text.Basic

/-!
# Reading positions

A YAML document means what it means by the columns in which its parts begin, so the reader knows the
line and column of the text that it has not read yet.
-/

namespace IdlFormat

namespace Yaml

/-- The characters that break lines. -/
def isBreak (c : Char) : Bool :=
  Text.inRanges c.toNat [(0x0A, 0x0A), (0x0D, 0x0D), (0x85, 0x85), (0x2028, 0x2029)]

/-- A line break as part of a scalar: a line feed, unless it is a Unicode separator. -/
def normalBreak (c : Char) : Char :=
  if c.toNat < 0x100 then '\n' else c

/-- White space, which also ends a mark. -/
def isSpace (c : Char) : Bool :=
  c = ' ' || c = '\t' || isBreak c

/-- Whether white space or the end of the text comes next. -/
def atSpace (text : Text) : Bool :=
  text.head?.all isSpace

/-- The mark of the byte order, which has no width. -/
def byteOrderMark : Char :=
  '\uFEFF'

/-- The text that is still to be read, and where it begins. -/
structure Cursor where
  /-- What is still to be read. -/
  rest : Text
  /-- The number of lines before. -/
  line : Nat := 0
  /-- The number of columns before on the same line. -/
  column : Nat := 0
  /-- The number of characters before. -/
  index : Nat := 0
deriving DecidableEq, Repr

namespace Cursor

/-- The cursor after the next character. -/
def next (cursor : Cursor) : Cursor :=
  match cursor.rest with
  | [] => cursor
  | c :: rest =>
      if isBreak c then ⟨rest, cursor.line + 1, 0, cursor.index + 1⟩
      else if c = byteOrderMark then ⟨rest, cursor.line, cursor.column, cursor.index + 1⟩
      else ⟨rest, cursor.line, cursor.column + 1, cursor.index + 1⟩

/-- The cursor after some characters. -/
def forward (cursor : Cursor) : (count : Nat) → Cursor
  | 0 => cursor
  | count + 1 => cursor.next.forward count

/-- The cursor after the characters of a class that come next. -/
def skipWhile (inClass : Char → Bool) (cursor : Cursor) : Cursor :=
  cursor.forward (cursor.rest.takeWhile inClass).length

/-- Whether everything is read. -/
def atEnd (cursor : Cursor) : Bool :=
  cursor.rest.isEmpty

/-- Whether a line break comes next. -/
def atBreak (cursor : Cursor) : Bool :=
  cursor.rest.head?.any isBreak

/-- Whether a line break or the end comes next. -/
def atLineEnd (cursor : Cursor) : Bool :=
  cursor.rest.head?.all isBreak

/-- Whether a mark of three equal characters comes next, with white space or the end after it. -/
def atTriple (cursor : Cursor) (c : Char) : Bool :=
  Text.startsWith [c, c, c] cursor.rest && atSpace (cursor.rest.drop 3)

/-- Whether a mark comes next that starts or ends documents, if it stands in the first column. -/
def atMarker (cursor : Cursor) : Bool :=
  cursor.atTriple '-' || cursor.atTriple '.'

/-- Passes over the rest of the line if a comment comes next. -/
def skipComment (cursor : Cursor) : Cursor :=
  if cursor.rest.head? = some '#' then cursor.skipWhile (!isBreak ·) else cursor

/-- Passes over spaces, comments and line breaks, and tells whether there were line breaks; the fuel
bounds the number of lines. -/
def skipLines : (fuel : Nat) → (crossed : Bool) → Cursor → Cursor × Bool
  | 0, crossed, cursor => (cursor, crossed)
  | fuel + 1, crossed, cursor =>
      let reached := (cursor.skipWhile (· = ' ')).skipComment
      if reached.atBreak then skipLines fuel true reached.next else (reached, crossed)

/-- Passes over everything between two tokens, and tells whether there were line breaks. -/
def skip (cursor : Cursor) : Cursor × Bool :=
  let start :=
    if cursor.index = 0 && cursor.rest.head? = some byteOrderMark then cursor.next else cursor
  skipLines (start.rest.length + 1) false start

end Cursor

end Yaml

end IdlFormat
