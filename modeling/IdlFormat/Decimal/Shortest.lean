import IdlFormat.Text.Basic

/-!
# Shortest decimals of binary numbers

A binary floating-point number stands for every real that rounds to it. Its shortest decimal is the
one with the fewest digits among those reals, and the nearest of these to the number itself. For a
given count of digits only the two neighbours of the number on that decimal grid need to be tried,
in exact arithmetic.
-/

namespace IdlFormat

namespace Decimal

/-- A positive binary number, `mantissa · 2 ^ exponent`, with the spacing of its neighbours. -/
structure Binary where
  /-- The significand. -/
  mantissa : Nat
  /-- The power of two. -/
  exponent : Int
  /-- Whether the neighbour below is only half as far away as the one above. -/
  narrow : Bool
deriving DecidableEq, Repr

/-- The magnitude of a finite double from its sixty-three low bits. -/
def Binary.ofBits (bits : Nat) : Binary :=
  let fraction := bits % Nat.pow 2 52
  let scale : Nat := bits / Nat.pow 2 52
  if scale = 0 then ⟨fraction, -1074, false⟩
  else ⟨fraction + Nat.pow 2 52, (scale : Int) - 1075, fraction = 0 && scale > 1⟩

/-- A decimal number, `digits · 10 ^ exponent`. -/
structure Scientific where
  /-- The digits as one number. -/
  digits : Nat
  /-- The power of ten. -/
  exponent : Int
deriving DecidableEq, Repr

/-- The reals that round to a binary number, as quarters of its last place over a common
denominator. -/
structure Interval where
  /-- The number itself. -/
  value : Nat
  /-- The lower end. -/
  low : Nat
  /-- The upper end. -/
  high : Nat
  /-- The denominator of all three. -/
  denominator : Nat
  /-- Whether the ends round to the number as well. -/
  endsIncluded : Bool

/-- The interval of a binary number. -/
def Interval.ofBinary (binary : Binary) : Interval :=
  let up := Nat.pow 2 (binary.exponent - 2).toNat
  { value := 4 * binary.mantissa * up
    low := (4 * binary.mantissa - if binary.narrow then 1 else 2) * up
    high := (4 * binary.mantissa + 2) * up
    denominator := Nat.pow 2 (2 - binary.exponent).toNat
    endsIncluded := binary.mantissa % 2 = 0 }

/-- Whether `digits` steps of the grid lie in the interval; a step is `up / down`. -/
def Interval.holds (interval : Interval) (up down digits : Nat) : Bool :=
  let point := digits * up * interval.denominator
  let low := interval.low * down
  let high := interval.high * down
  if interval.endsIncluded then low ≤ point && point ≤ high else low < point && point < high

/-- The nearest point of the interval on a grid with the given step exponent, if there is one. -/
def Interval.nearest? (interval : Interval) (exponent : Int) : Option Scientific :=
  let up := Nat.pow 10 exponent.toNat
  let down := Nat.pow 10 (-exponent).toNat
  let step := up * interval.denominator
  let below := interval.value * down / step
  let remainder := interval.value * down % step
  let belowFirst := 2 * remainder < step || (2 * remainder = step && below % 2 = 0)
  let candidates := if belowFirst then [below, below + 1] else [below + 1, below]
  (candidates.find? (interval.holds up down)).map (⟨·, exponent⟩)

/-- The number of digits before the decimal point, which is zero or negative for numbers below one
tenth. At most `fuel` leading zeros are counted. -/
def pointPosition (value denominator : Nat) : (fuel : Nat) → Int
  | 0 => 0
  | fuel + 1 =>
      if denominator ≤ value then (Nat.toDigits 10 (value / denominator)).length
      else pointPosition (value * 10) denominator fuel - 1

/-- The shortest decimal of an interval with at most seventeen digits. -/
def Interval.shortest (interval : Interval) : Scientific :=
  -- A double is at least 10 ^ -324, so no more zeros than that can follow the point.
  let position := pointPosition interval.value interval.denominator 400
  let grids := (List.range 17).map fun count : Nat => position - 1 - (count : Int)
  (grids.findSome? interval.nearest?).getD ⟨0, 0⟩

/-- Drops the trailing zeros of a list of digits, least digit first, and counts them. -/
def dropZeros : List Char → List Char × Nat
  | '0' :: rest =>
      let (kept, count) := dropZeros rest
      (kept, count + 1)
  | digits => (digits, 0)

/-- How a number is written. -/
structure Spelling where
  /-- Numbers with more digits before the point than this have an exponent. -/
  mostBefore : Int
  /-- Numbers with fewer digits before the point than this have an exponent. -/
  leastBefore : Int
  /-- The least number of digits of an exponent. -/
  exponentWidth : Nat
deriving DecidableEq, Repr

/-- An exponent with its sign. -/
def Spelling.exponent (format : Spelling) (exponent : Int) : Text :=
  let digits := Text.ofNat exponent.natAbs
  let sign := if exponent < 0 then '-' else '+'
  'e' :: sign :: List.replicate (format.exponentWidth - digits.length) '0' ++ digits

/-- A positive decimal in a notation; a number without a fraction keeps one zero after the point,
unless it has an exponent. -/
def Spelling.write (format : Spelling) (decimal : Scientific) : Text :=
  let (reversed, zeros) := dropZeros (Text.ofNat decimal.digits).reverse
  let digits := reversed.reverse
  let before : Int := digits.length + zeros + decimal.exponent
  if before < format.leastBefore || format.mostBefore < before then
    let fraction := digits.drop 1
    digits.take 1 ++ (if fraction.isEmpty then [] else '.' :: fraction) ++
      format.exponent (before - 1)
  else if before ≤ 0 then
    '0' :: '.' :: List.replicate (-before).toNat '0' ++ digits
  else
    let whole := digits.take before.toNat
    let fraction := digits.drop before.toNat
    whole ++ List.replicate (before.toNat - digits.length) '0' ++
      '.' :: (if fraction.isEmpty then ['0'] else fraction)

/-- The shortest text of a double, with the texts of the numbers that are not finite. -/
def Spelling.float (format : Spelling) (infinity notANumber : Text) (number : Float) : Text :=
  let bits := number.toBits.toNat
  let negative := Nat.pow 2 63 ≤ bits
  let magnitude := bits % Nat.pow 2 63
  let signed := fun text : Text => if negative then '-' :: text else text
  if magnitude = 0 then signed "0.0".toList
  else if magnitude / Nat.pow 2 52 = 2047 then
    if magnitude % Nat.pow 2 52 = 0 then signed infinity else notANumber
  else signed (format.write (Interval.ofBinary (Binary.ofBits magnitude)).shortest)

/-- Why a double is no integer. -/
inductive NotInteger where
  /-- It has a fraction. -/
  | fractional
  /-- It is infinite or not a number. -/
  | infinite
deriving DecidableEq, Repr

/-- The integer that a double is. -/
def toInt? (number : Float) : Except NotInteger Int :=
  let bits := number.toBits.toNat
  let magnitude := bits % Nat.pow 2 63
  if magnitude / Nat.pow 2 52 = 2047 then .error .infinite
  else
    let binary := Binary.ofBits magnitude
    let up := Int.pow 2 binary.exponent.toNat
    let down := Nat.pow 2 (-binary.exponent).toNat
    if binary.mantissa % down = 0 then
      let size : Int := binary.mantissa / down * up
      .ok (if Nat.pow 2 63 ≤ bits then -size else size)
    else .error .fractional

/-- The double nearest to `digits · 10 ^ exponent`. Numbers beyond the range of doubles become
infinite or zero. -/
def toFloat (digits : Nat) (exponent : Int) : Float :=
  let size : Int := (Text.ofNat digits).length + exponent
  if digits = 0 || size < -330 then 0.0
  else if 310 < size then 1.0 / 0.0
  else if exponent < 0 then Float.ofScientific digits true exponent.natAbs
  else Float.ofScientific digits false exponent.natAbs

end Decimal

end IdlFormat
