import IdlFormat.Decimal.Reader
import IdlFormat.Text.Lower
import IdlFormat.Yaml.Scalar.Basic

/-!
# Numbers

A plain scalar is a number by its spelling. Integers are written in decimal, or in base two, eight
or sixteen after a mark; numbers with a point in decimal. Both can also be written in base sixty,
with a colon between two places. Underscores do not count.
-/

namespace IdlFormat

namespace Yaml

namespace Number

/-- Whether a text has only digits of a base and underscores. -/
def areDigits (base : Nat) (text : Text) : Bool :=
  text.all fun c => c = '_' || (hexDigit? c).any (· < base)

/-- Whether a text has a digit and after it only digits and underscores. -/
def startsDigits (text : Text) : Bool :=
  text.head?.any Char.isDigit && areDigits 10 text

/-- Whether a text is a place of base sixty after the first one. -/
def isPlace : Text → Bool
  | [c] => c.isDigit
  | [c, d] => '0' ≤ c && c ≤ '5' && d.isDigit
  | _ => false

/-- Whether a text is spelled like an integer. -/
def isInteger (text : Text) : Bool :=
  match (Numeral.sign text).2 with
  | '0' :: 'b' :: digits => !digits.isEmpty && areDigits 2 digits
  | '0' :: 'x' :: digits => !digits.isEmpty && areDigits 16 digits
  | '0' :: digits => areDigits 8 digits
  | body =>
      match body.splitOn ':' with
      | first :: places => startsDigits first && places.all isPlace
      | [] => false

/-- Whether what follows the digits of a number is an exponent or nothing. -/
def isEnding : Text → Bool
  | [] => true
  | mark :: sign :: digits =>
      (mark = 'e' || mark = 'E') && (sign = '-' || sign = '+') && !digits.isEmpty &&
        digits.all Char.isDigit
  | _ => false

/-- Whether a text is empty or a point with digits and then maybe an exponent after it. -/
def isFraction (withExponent : Bool) : Text → Bool
  | '.' :: rest =>
      let ending := rest.dropWhile fun c => c.isDigit || c = '_'
      if withExponent then isEnding ending else ending.isEmpty
  | _ => false

/-- Whether a text is spelled like a number with a point. -/
def isFloat (text : Text) : Bool :=
  let body := (Numeral.sign text).2
  let whole := body.takeWhile (· != '.')
  let fraction := body.dropWhile (· != '.')
  match whole.splitOn ':' with
  | [[]] =>
      body ∈ [".inf".toList, ".Inf".toList, ".INF".toList] ||
        text ∈ [".nan".toList, ".NaN".toList, ".NAN".toList] ||
        (body = text && (body.drop 1).head?.any Char.isDigit && isFraction true fraction)
  | [first] => startsDigits first && isFraction true fraction
  | first :: places => startsDigits first && places.all isPlace && isFraction false fraction
  | [] => false

/-- The number that places of base sixty write; `ofNat` takes their units to numbers. -/
def ofPlaces {α : Type} [Add α] [Mul α] (ofNat : Nat → α) (places : List α) : α :=
  (places.foldr (fun place (sum, unit) => (sum + place * ofNat unit, unit * 60)) (ofNat 0, 1)).1

/-- The text without underscores and without a sign, and whether it is negative. A text that is
empty before the sign is taken off is no number. -/
def body (text : Text) : Result (Bool × Text) :=
  match text.filter (· != '_') with
  | [] => .error .emptyNumber
  | text => .ok (Numeral.sign text)

/-- Reads an integer in a base, before which the mark of the base may stand. -/
def integerIn (base : Nat) (marks : List Char) (text : Text) : Result Int :=
  let unmarked :=
    match text with
    | '0' :: mark :: c :: rest =>
        if mark ∈ marks && (Numeral.digitIn? base c).isSome then c :: rest else text
    | _ => text
  match Numeral.parseIn base unmarked with
  | .ok number => .ok number
  | .error (.tooLong excess) => .error (.badInteger (.tooLong excess))
  | .error (.malformed ..) => .error (.badInteger (.malformed base text))

/-- Reads an integer without a sign. -/
def whole : Text → Result Int
  | [] => .error .emptyNumber
  | ['0'] => .ok 0
  | '0' :: 'b' :: digits => integerIn 2 ['b', 'B'] digits
  | '0' :: 'x' :: digits => integerIn 16 ['x', 'X'] digits
  | '0' :: digits => integerIn 8 ['o', 'O'] ('0' :: digits)
  | text => do
      let places ← (text.splitOn ':').mapM (integerIn 10 [])
      return ofPlaces Int.ofNat places

/-- Reads an integer. -/
def integer (text : Text) : Result Int := do
  let (negative, body) ← body text
  let size ← whole body
  return if negative then -size else size

/-- Reads a number with a point and without a sign, in lower case. -/
def magnitude (text : Text) : Result Float :=
  if text = ".inf".toList then .ok (1.0 / 0.0)
  else if text = ".nan".toList then .ok (0.0 / 0.0)
  else do
    let places ← (text.splitOn ':').mapM fun place =>
      match Decimal.ofText? place with
      | some number => .ok number
      | none => .error (.badFloat place)
    return match places with
      | [number] => number
      | _ => ofPlaces Float.ofNat places

/-- Reads a number with a point. -/
def float (text : Text) : Result Float := do
  let (negative, body) ← body text.lower
  let size ← magnitude body
  return if negative then -size else size

end Number

end Yaml

end IdlFormat
