import IdlFormat.Decimal.Shortest
import IdlFormat.Text.Numeral

/-!
# Reading decimals

A decimal has digits, a point before, between or after them, and an exponent; the point and the
exponent may be missing. White space may stand around it, and a sign before it.
-/

namespace IdlFormat

namespace Decimal

/-- The words for numbers that have no digits, in lower case. -/
def words : List (Text × Float) :=
  [("inf".toList, 1.0 / 0.0), ("infinity".toList, 1.0 / 0.0), ("nan".toList, 0.0 / 0.0)]

/-- The digits after the point that comes next, and what follows them. -/
def places : Text → Text × Text
  | '.' :: rest => (rest.takeWhile isDecimalDigit, rest.dropWhile isDecimalDigit)
  | text => ([], text)

/-- The exponent that ends a decimal, zero if there is none. -/
def ending? : Text → Option Int
  | [] => some 0
  | mark :: rest =>
      let (negative, digits) := Numeral.sign rest
      if (mark = 'e' || mark = 'E') && !digits.isEmpty && digits.all isDecimalDigit then
        let size : Int := digits.decimalValue
        some (if negative then -size else size)
      else none

/-- Reads a decimal without a sign. -/
def unsigned? (text : Text) : Option Float :=
  match words.find? fun (word, _) => word = text.map Char.toLower with
  | some (_, number) => some number
  | none => do
      let whole := text.takeWhile isDecimalDigit
      let (part, rest) := places (text.dropWhile isDecimalDigit)
      let exponent ← ending? rest
      guard !(whole ++ part).isEmpty
      return toFloat (Text.decimalValue (whole ++ part)) (exponent - part.length)

/-- Reads a decimal. -/
def ofText? (text : Text) : Option Float :=
  let (negative, body) := Numeral.sign (text.dropWhile Numeral.isPadding)
  let number := unsigned? (body.reverse.dropWhile Numeral.isPadding).reverse
  if negative then number.map (-·) else number

end Decimal

end IdlFormat
