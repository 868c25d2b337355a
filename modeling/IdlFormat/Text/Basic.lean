/-!
# Texts

A text is the sequence of its code points, so every offset, length and column in this
library counts code points. Working on lists keeps each scanner a plain recursion; strings
appear only where texts enter and leave the program.

Character classes that come from the Unicode standard are kept as ascending tables of
closed ranges, looked up by `Text.inRanges`.
-/

namespace IdlFormat

/-- A text: its code points in order. -/
abbrev Text := List Char

instance : LawfulBEq Text := inferInstance

namespace Text

/-- Membership of a code point in an ascending table of disjoint closed ranges. -/
def inRanges (codePoint : Nat) : List (Nat × Nat) → Bool
  | [] => false
  | (low, high) :: ranges =>
      if codePoint < low then false
      else codePoint ≤ high || inRanges codePoint ranges

/-- Whether a text begins with another. -/
def startsWith (opening : Text) (text : Text) : Bool :=
  opening.isPrefixOf text

/-- Cuts a text at every occurrence of a separator; `n` separators give `n + 1` pieces. -/
def splitOn (separator : Char) : Text → List Text
  | [] => [[]]
  | c :: rest =>
      if c = separator then [] :: splitOn separator rest
      else match splitOn separator rest with
        | [] => [[c]]
        | piece :: pieces => (c :: piece) :: pieces

/-- Joins texts with a separator between neighbours. -/
def join (separator : Text) : List Text → Text
  | [] => []
  | [text] => text
  | text :: texts => text ++ separator ++ join separator texts

/-- Lines joined by line feeds, without a final one. -/
def joinLines (lines : List Text) : Text :=
  join ['\n'] lines

/-- The decimal digits of a natural number. -/
def ofNat (number : Nat) : Text :=
  Nat.toDigits 10 number

/-- The decimal digits of an integer, after a minus sign if it is negative. -/
def ofInt : Int → Text
  | .ofNat number => ofNat number
  | .negSucc number => '-' :: ofNat (number + 1)

/-- The order of texts by code point, the earlier difference deciding. -/
def le : Text → Text → Bool
  | [], _ => true
  | _ :: _, [] => false
  | c :: left, d :: right => c.toNat < d.toNat || (c = d && le left right)

end Text

end IdlFormat
