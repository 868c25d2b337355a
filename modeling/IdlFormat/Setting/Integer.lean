import IdlFormat.Text.Numeral

/-!
# Integers in settings

A setting may give an integer as a text. Its plain form is an optional minus and ASCII digits
without leading zeros. A text that is not in plain form is brought to it first: white space around
it, a plus, leading zeros, a fraction of zeros and the underscores inside are dropped, each in its
turn.
-/

namespace IdlFormat

namespace Setting

namespace Integer

/-- Why a text gives no integer. -/
inductive Fault where
  /-- The text writes no integer. -/
  | unreadable
  /-- The text begins with too long a numeral. -/
  | tooLong
deriving DecidableEq, Repr

/-- The most characters, with its sign, of a numeral. -/
def lengthLimit : Nat := 4300

/-- Reads an integer in plain form. That a numeral is too long is found before what follows it is
looked at. -/
def ofPlain (text : Text) : Except Fault Int :=
  let (minus, unsigned) := text.span (· = '-')
  let (digits, rest) := unsigned.span Char.isDigit
  if minus.length > 1 then .error .unreadable
  else if digits.head? = some '0' then if unsigned = ['0'] then .ok 0 else .error .unreadable
  else if minus.length + digits.length > lengthLimit then .error .tooLong
  else if digits.isEmpty || !rest.isEmpty then .error .unreadable
  else
    let size : Int := Text.decimalValue digits
    .ok (if minus.isEmpty then size else -size)

/-- Drops the leading zeros that follow the character `before`, and underscores among them. A number
or a minus may follow, or a point, before which one zero stays. -/
def dropZerosAfter? (before : Char) : Text → Option Text
  | [] => some [before]
  | c :: rest =>
      if c = '0' || c = '_' then dropZerosAfter? c rest
      else if c.isDigit || c = '-' then some (c :: rest)
      else if c = '.' then some (before :: c :: rest)
      else none

/-- Drops leading zeros. -/
def dropZeros? : Text → Option Text
  | [] => none
  | c :: rest =>
      if c = '0' then dropZerosAfter? c rest
      else if c.isDigit || c = '-' then some (c :: rest)
      else none

/-- Drops a plus. -/
def dropPlus? : Text → Option Text
  | '+' :: '-' :: _ => none
  | '+' :: rest => some rest
  | text => some text

/-- Drops a point and the zeros after it, of which there must be one at least. -/
def dropFraction (text : Text) : Text :=
  let (whole, fraction) := text.span (· != '.')
  if fraction.length > 1 && (fraction.drop 1).all (· = '0') then whole else text

/-- Whether two underscores stand side by side. -/
def hasDouble : Text → Bool
  | '_' :: '_' :: _ => true
  | _ :: rest => hasDouble rest
  | [] => false

/-- Drops the underscores of a text in which they stand singly and inside. -/
def dropUnderscores (text : Text) : Text :=
  if text.head? = some '_' || text.getLast? = some '_' || hasDouble text then text
  else text.filter (· != '_')

/-- Brings a text to plain form, as far as that is possible. -/
def clean? (text : Text) : Option Text := do
  let trimmed := Text.dropEndWhile Numeral.isPadding (text.dropWhile Numeral.isPadding)
  let digits ← dropZeros? (← dropPlus? trimmed)
  return dropUnderscores (dropFraction digits)

/-- Reads an integer. -/
def ofText (text : Text) : Except Fault Int :=
  match ofPlain text with
  | .error .unreadable =>
      match clean? text with
      | some cleaned => ofPlain cleaned
      | none => .error .unreadable
  | result => result

end Integer

end Setting

end IdlFormat
