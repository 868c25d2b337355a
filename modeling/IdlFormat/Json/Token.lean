import IdlFormat.Decimal.Shortest
import IdlFormat.Json.Basic
import IdlFormat.Text.Numeral

/-!
# Tokens of JSON

A JSON text is cut into punctuation, strings and other scalars. Cutting never fails: where no token
starts, the list ends with `Token.invalid`, and a numeral with too many digits is noted as such, so
that the reader meets faults in the order of the text.
-/

namespace IdlFormat

namespace Json

/-- A token of JSON. -/
inductive Token where
  /-- An opening square bracket. -/
  | arrayOpen
  /-- A closing square bracket. -/
  | arrayClose
  /-- An opening brace. -/
  | objectOpen
  /-- A closing brace. -/
  | objectClose
  /-- A colon. -/
  | colon
  /-- A comma. -/
  | comma
  /-- A string. -/
  | string (value : Text)
  /-- A number, a truth value or null. -/
  | scalar (value : Json)
  /-- An integer with too many digits. -/
  | tooLong (excess : Numeral.TooLong)
  /-- Text that is no token. -/
  | invalid
deriving Repr

namespace Token

/-- The white space between tokens. -/
def isSpace (c : Char) : Bool :=
  c = ' ' || c = '\t' || c = '\n' || c = '\r'

/-- The value of four hexadecimal digits. -/
def hexUnit? (a b c d : Char) : Option Nat := do
  return (((← hexDigit? a) * 16 + (← hexDigit? b)) * 16 + (← hexDigit? c)) * 16 + (← hexDigit? d)

/-- The code of a short escape. -/
def escape? (c : Char) : Option Nat :=
  if c = '"' || c = '\\' || c = '/' then some c.toNat
  else if c = 'b' then some 0x08
  else if c = 'f' then some 0x0C
  else if c = 'n' then some 0x0A
  else if c = 'r' then some 0x0D
  else if c = 't' then some 0x09
  else none

/-- The codes of a string after its opening quote, and what follows its closing quote. Escapes give
UTF-16 units, other characters their code points. -/
def stringCodes : Text → Option (List Nat × Text)
  | [] => none
  | '"' :: rest => some ([], rest)
  | '\\' :: 'u' :: a :: b :: c :: d :: rest => do
      let code ← hexUnit? a b c d
      let (codes, after) ← stringCodes rest
      return (code :: codes, after)
  | '\\' :: c :: rest => do
      let code ← escape? c
      let (codes, after) ← stringCodes rest
      return (code :: codes, after)
  | c :: rest =>
      if c.toNat < 0x20 || c = '\\' then none
      else do
        let (codes, after) ← stringCodes rest
        return (c.toNat :: codes, after)

/-- Whether a code is the first unit of a pair. -/
def isLeading (code : Nat) : Bool :=
  0xD800 ≤ code && code ≤ 0xDBFF

/-- Whether a code is the second unit of a pair. -/
def isTrailing (code : Nat) : Bool :=
  0xDC00 ≤ code && code ≤ 0xDFFF

/-- The character of a code that is no half of a pair; a half is replaced. -/
def charOfCode (code : Nat) : Char :=
  if isLeading code || isTrailing code then Char.ofNat 0xFFFD else Char.ofNat code

/-- The characters of codes, pairs of units joined. -/
def ofCodes : List Nat → Text
  | [] => []
  | [code] => [charOfCode code]
  | first :: second :: codes =>
      if isLeading first && isTrailing second then
        Char.ofNat (0x10000 + (first - 0xD800) * 0x400 + (second - 0xDC00)) :: ofCodes codes
      else charOfCode first :: ofCodes (second :: codes)

/-- The ASCII digits. -/
def isDigit (c : Char) : Bool :=
  '0' ≤ c && c ≤ '9'

/-- The digits of a fraction after its point, if there are any, and what follows. -/
def fraction (text : Text) : Text × Text :=
  match text with
  | '.' :: rest =>
      let digits := rest.takeWhile isDigit
      if digits.isEmpty then ([], text) else (digits, rest.dropWhile isDigit)
  | _ => ([], text)

/-- An exponent, if there is one, and what follows. -/
def exponent (text : Text) : Option Int × Text :=
  match text with
  | [] => (none, text)
  | mark :: rest =>
      if mark = 'e' || mark = 'E' then
        let (negative, unsigned) := Numeral.sign rest
        let digits := unsigned.takeWhile isDigit
        if digits.isEmpty then (none, text)
        else
          let size : Int := Text.decimalValue digits
          (some (if negative then -size else size), unsigned.dropWhile isDigit)
      else (none, text)

/-- The digits that a number starts with: a zero alone, or all digits up to the next character. -/
def wholePart (text : Text) : Text :=
  if text.head? = some '0' then ['0'] else text.takeWhile isDigit

/-- The token of a number by its sign, its digits before and after the point, and its exponent. -/
def ofParts (negative : Bool) (whole places : Text) (scale : Option Int) : Token :=
  if places.isEmpty && scale.isNone then
    match Numeral.ofDigits whole with
    | .error excess => .tooLong excess
    | .ok size => .scalar (.int (if negative then -(size : Int) else size))
  else
    let size := Decimal.toFloat (Text.decimalValue (whole ++ places)) (scale.getD 0 - places.length)
    .scalar (.float (if negative then -size else size))

/-- The token of a number with the given sign, and what follows it. -/
def number (negative : Bool) (text : Text) : Option (Token × Text) :=
  let whole := wholePart text
  if whole.isEmpty then none
  else
    let (places, afterPlaces) := fraction (text.drop whole.length)
    let (scale, rest) := exponent afterPlaces
    some (ofParts negative whole places scale, rest)

/-- The names of values. -/
def names : List (Text × Json) :=
  [("null".toList, .null), ("true".toList, .bool true), ("false".toList, .bool false),
    ("NaN".toList, .float (0.0 / 0.0)), ("Infinity".toList, .float (1.0 / 0.0)),
    ("-Infinity".toList, .float (-1.0 / 0.0))]

/-- The punctuation. -/
def mark? (c : Char) : Option Token :=
  if c = '[' then some .arrayOpen
  else if c = ']' then some .arrayClose
  else if c = '{' then some .objectOpen
  else if c = '}' then some .objectClose
  else if c = ':' then some .colon
  else if c = ',' then some .comma
  else none

/-- The token that starts with a character, and what follows it. -/
def next (c : Char) (rest : Text) : Option (Token × Text) :=
  match mark? c with
  | some token => some (token, rest)
  | none =>
      if c = '"' then
        (stringCodes rest).map fun (codes, after) => (.string (ofCodes codes), after)
      else
        match names.find? fun (name, _) => name.isPrefixOf (c :: rest) with
        | some (name, value) => some (.scalar value, (c :: rest).drop name.length)
        | none => if c = '-' then number true rest else number false (c :: rest)

/-- The tokens of a text, of at most the given number; `invalid` is the last where no token
starts. -/
def cut : (fuel : Nat) → Text → List Token
  | 0, _ => []
  | fuel + 1, text =>
      match text.dropWhile isSpace with
      | [] => []
      | c :: rest =>
          match next c rest with
          | some (token, after) => token :: cut fuel after
          | none => [.invalid]

/-- The tokens of a text. Each takes a character at least, so its length is fuel enough. -/
def tokens (text : Text) : List Token :=
  cut text.length text

end Token

end Json

end IdlFormat
