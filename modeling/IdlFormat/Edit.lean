import IdlFormat.Document

/-!
# Edits for editors

Editors speak of positions, a line and a column, and ask for edits, a range and its replacement.
Formatting always replaces the whole document, also when only a part was asked for, so that the
indentation stays consistent.
-/

namespace IdlFormat

/-- A line and a column, both counted from zero. -/
structure Position where
  /-- The number of line feeds before the position. -/
  line : Int
  /-- The number of characters before the position on its line. -/
  column : Int
deriving DecidableEq, Repr

namespace Position

/-- The position at an offset, which is brought into the text if it lies outside. -/
def ofOffset (text : Text) (offset : Int) : Position :=
  let before := text.take offset.toNat
  { line := before.count '\n'
    column := (before.reverse.takeWhile (· != '\n')).length }

/-- The offset of a column on the line that is `line` line feeds away; past the last line it is the
end of the text, and past the end of a line the end of that line. -/
def offsetFrom (column : Int) : (line : Nat) → Text → Nat
  | _, [] => 0
  | 0, text => min column.toNat (text.takeWhile (· != '\n')).length
  | line + 1, c :: rest =>
      1 + if c = '\n' then offsetFrom column line rest else offsetFrom column (line + 1) rest

/-- The offset of a position, which is brought into the text if it lies outside. -/
def toOffset (text : Text) (position : Position) : Nat :=
  if position.line < 0 then 0 else offsetFrom position.column position.line.toNat text

end Position

/-- The part of a text between two positions. -/
structure Range where
  /-- Where the part begins. -/
  start : Position
  /-- Where the part ends. -/
  stop : Position
deriving DecidableEq, Repr

/-- The range of a whole text. -/
def Range.full (text : Text) : Range where
  start := .ofOffset text 0
  stop := .ofOffset text text.length

/-- A replacement for a part of a text. -/
structure Edit where
  /-- The part that is replaced. -/
  range : Range
  /-- What takes its place. -/
  replacement : Text
deriving DecidableEq, Repr

namespace Edit

/-- The edits that format a document: one that replaces all of it. -/
def ofDocument (style : Style) (text : Text) : Except Numeral.TooLong (List Edit) := do
  return [⟨Range.full text, ← Document.format style text⟩]

/-- The edits that format a part of a document: those that format all of it. -/
def ofRange (style : Style) (text : Text) (_requested : Range) :
    Except Numeral.TooLong (List Edit) :=
  ofDocument style text

/-- The text with one more text at a position. -/
def insert (text : Text) (position : Position) (addition : Text) : Text :=
  let offset := position.toOffset text
  text.take offset ++ addition ++ text.drop offset

end Edit

end IdlFormat
