import IdlFormat.Text.Basic

/-!
# Blanks

The blanks are the Unicode white space characters together with the four information
separators `U+001C` to `U+001F`. This file trims and collapses runs of them, and holds the
small changes of spacing around punctuation that every formatted line is built from.
-/

namespace IdlFormat

/-- White space in the sense of the formatter. -/
def isBlank (c : Char) : Bool :=
  Text.inRanges c.toNat
    [(0x09, 0x0D), (0x1C, 0x20), (0x85, 0x85), (0xA0, 0xA0), (0x1680, 0x1680),
      (0x2000, 0x200A), (0x2028, 0x2029), (0x202F, 0x202F), (0x205F, 0x205F), (0x3000, 0x3000)]

/-- The blanks that indent a line or trail on it: space and tab. -/
def isIndent (c : Char) : Bool :=
  c = ' ' || c = '\t'

namespace Text

/-- Drops the characters of a class from the end of a text. -/
def dropEndWhile (inClass : Char → Bool) (text : Text) : Text :=
  text.foldr (fun c rest => if inClass c && rest.isEmpty then [] else c :: rest) []

/-- Drops leading blanks. -/
def trimStart (text : Text) : Text :=
  text.dropWhile isBlank

/-- Drops trailing blanks. -/
def trimEnd (text : Text) : Text :=
  text.dropEndWhile isBlank

/-- Drops leading and trailing blanks. -/
def trim (text : Text) : Text :=
  trimEnd (trimStart text)

/-- Whether a text has nothing but blanks. -/
def isBlank (text : Text) : Bool :=
  text.all IdlFormat.isBlank

/-- Writes every run of blanks as one space; `afterBlank` says that the run has begun. -/
def collapseFrom (afterBlank : Bool) : Text → Text
  | [] => []
  | c :: rest =>
      if IdlFormat.isBlank c then
        if afterBlank then collapseFrom true rest else ' ' :: collapseFrom true rest
      else c :: collapseFrom false rest

/-- Writes every run of blanks as one space. -/
def collapse (text : Text) : Text :=
  collapseFrom false text

/-- Drops all blanks. -/
def compact (text : Text) : Text :=
  text.filter (! IdlFormat.isBlank ·)

/-- Drops the blanks that stand directly before a mark. -/
def tighten (mark : Char) (text : Text) : Text :=
  text.foldr
    (fun c rest => if IdlFormat.isBlank c && rest.head? == some mark then rest else c :: rest) []

/-- Puts a space after each comma that no blank follows. -/
def spaceCommas : Text → Text
  | [] => []
  | c :: rest =>
      if c = ',' && !(rest.head?.any IdlFormat.isBlank) then c :: ' ' :: spaceCommas rest
      else c :: spaceCommas rest

/-- Writes one space after each comma in place of the blanks there; `afterComma` says that such
blanks are being dropped. -/
def respaceCommasFrom (afterComma : Bool) : Text → Text
  | [] => []
  | c :: rest =>
      if afterComma && IdlFormat.isBlank c then respaceCommasFrom true rest
      else if c = ',' then c :: ' ' :: respaceCommasFrom true rest
      else c :: respaceCommasFrom false rest

/-- Writes every comma, with the blanks around it, as a comma and one space. -/
def respaceCommas (text : Text) : Text :=
  respaceCommasFrom false (text.tighten ',')

end Text

end IdlFormat
