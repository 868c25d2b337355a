import IdlFormat.Text.Blank
import IdlFormat.Text.Digit
import IdlFormat.Text.Quoted

/-!
# Integer numerals

An integer is read with optional white space around it, one sign, and digits with single underscores
between them. A decimal numeral with more than `Numeral.digitLimit` digits is refused, so that
reading never takes long; in the bases that are powers of two there is no limit.
-/

namespace IdlFormat

namespace Numeral

/-- The most digits that a decimal numeral may have. -/
def digitLimit : Nat := 4300

/-- A numeral has more digits than `digitLimit`. -/
structure TooLong where
  /-- The number of its digits. -/
  digits : Nat
deriving DecidableEq, Repr

/-- Why a text is not read as an integer. -/
inductive Fault where
  /-- The text is no numeral in the base. -/
  | malformed (base : Nat) (text : Text)
  /-- The numeral has too many digits. -/
  | tooLong (excess : TooLong)
deriving DecidableEq, Repr

/-- The report on a numeral that is too long. -/
def TooLong.message (excess : TooLong) : Text :=
  "Exceeds the limit (".toList ++ Text.ofNat digitLimit ++
    " digits) for integer string conversion: value has ".toList ++ Text.ofNat excess.digits ++
    " digits; use sys.set_int_max_str_digits() to increase the limit".toList

/-- The most characters of a text that a report shows. -/
def shownLimit : Nat := 200

/-- The report on a text that is not read as an integer. -/
def Fault.message : Fault → Text
  | .malformed base text =>
      "invalid literal for int() with base ".toList ++ Text.ofNat base ++ [':', ' '] ++
        text.quoted.take shownLimit
  | .tooLong excess => excess.message

/-- The number that a run of digits writes, if it is not too long. -/
def ofDigits (digits : Text) : Except TooLong Nat :=
  if digits.length > digitLimit then .error ⟨digits.length⟩ else .ok digits.decimalValue

/-- The digits of a number in decimal, unless there are too many of them. -/
def write? (number : Int) : Option Text :=
  let digits := Text.ofNat number.natAbs
  if digits.length > digitLimit then none else some (Text.ofInt number)

/-- The report on a number that has too many digits to be written. -/
def unwritable : Text :=
  "Exceeds the limit (".toList ++ Text.ofNat digitLimit ++
    " digits) for integer string conversion; use sys.set_int_max_str_digits() to ".toList ++
    "increase the limit".toList

/-- The white space that may stand around a numeral: the blanks without the information
separators. -/
def isPadding (c : Char) : Bool :=
  isBlank c && !(0x1C ≤ c.toNat && c.toNat ≤ 0x1F)

/-- The value of a digit in a base up to sixteen. -/
def digitIn? (base : Nat) (c : Char) : Option Nat :=
  ((digitValue? c).or (hexDigit? c)).filter (· < base)

/-- Takes the digits off the front of a text, in which single underscores may stand between digits.
There must be a digit unless `afterDigit` says that one stands before the text. -/
def cutDigits? (base : Nat) (afterDigit : Bool) : Text → Option (List Nat × Text)
  | [] => if afterDigit then some ([], []) else none
  | c :: rest =>
      match digitIn? base c with
      | some digit =>
          (cutDigits? base true rest).map fun (digits, after) => (digit :: digits, after)
      | none =>
          if !afterDigit then none
          else if c = '_' then cutDigits? base false rest
          else some ([], c :: rest)

/-- Takes the sign off a numeral: whether it is negative, and what follows. -/
def sign : Text → Bool × Text
  | '-' :: rest => (true, rest)
  | '+' :: rest => (false, rest)
  | text => (false, text)

/-- Whether the numerals in a base have a limit. -/
def isLimited (base : Nat) : Bool :=
  base ∉ [2, 4, 8, 16, 32]

/-- Reads an integer in a base. That a numeral is too long is found before what follows its digits
is looked at. -/
def parseIn (base : Nat) (text : Text) : Except Fault Int :=
  let (negative, unsigned) := sign (text.dropWhile isPadding)
  match cutDigits? base false unsigned with
  | none => .error (.malformed base text)
  | some (digits, after) =>
      if isLimited base && digits.length > digitLimit then .error (.tooLong ⟨digits.length⟩)
      else if after.all isPadding then
        let size : Int := (digits.foldl (fun number digit => number * base + digit) 0 : Nat)
        .ok (if negative then -size else size)
      else .error (.malformed base text)

/-- Reads an integer in decimal. -/
def parse (text : Text) : Except Fault Int :=
  parseIn 10 text

end Numeral

end IdlFormat
