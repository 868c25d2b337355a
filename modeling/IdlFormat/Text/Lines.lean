import IdlFormat.Text.Basic

/-!
# Lines

Line breaks come in three conventions; a document is brought to line feeds before it is cut. For
comparing documents line by line, a text is cut at every character that Unicode counts as a line
boundary, and each line keeps its break.
-/

namespace IdlFormat

namespace Text

/-- Writes every carriage return, with a line feed that follows it, as one line feed. -/
def normalizeBreaks : Text → Text
  | [] => []
  | '\r' :: '\n' :: rest => '\n' :: normalizeBreaks rest
  | c :: rest => (if c = '\r' then '\n' else c) :: normalizeBreaks rest

/-- The characters that end a line. -/
def isLineBoundary (c : Char) : Bool :=
  inRanges c.toNat
    [(0x0A, 0x0D), (0x1C, 0x1E), (0x85, 0x85), (0x2028, 0x2029)]

/-- The lines of a text with their breaks, where `line` is the line in progress, last character
first. -/
def keptLinesFrom (line : Text) : Text → List Text
  | [] => if line.isEmpty then [] else [line.reverse]
  | '\r' :: '\n' :: rest => ('\n' :: '\r' :: line).reverse :: keptLinesFrom [] rest
  | c :: rest =>
      if isLineBoundary c then (c :: line).reverse :: keptLinesFrom [] rest
      else keptLinesFrom (c :: line) rest

/-- The lines of a text, each with its break. -/
def keptLines (text : Text) : List Text :=
  keptLinesFrom [] text

end Text

end IdlFormat
