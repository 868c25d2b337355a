import IdlFormat.Decimal.Shortest
import IdlFormat.Json.Basic
import IdlFormat.Text.Numeral
import IdlFormat.Text.Quoted

/-!
# Writing JSON

Values are written either on one line, with a space after each comma and colon, or with one item to
a line and two spaces for each level. Strings are written with the short escapes where there are
any; characters outside ASCII are kept or written by their UTF-16 units. A value with too long an
integer, or nested too deeply, is refused.
-/

namespace IdlFormat

namespace Json

/-- Whether characters outside ASCII are kept or escaped. -/
inductive Charset where
  /-- They stand for themselves. -/
  | unicode
  /-- They are escaped, and the delete character with them. -/
  | ascii
deriving DecidableEq, Repr

/-- A UTF-16 unit as an escape. -/
def unitEscape (code : Nat) : Text :=
  '\\' :: 'u' :: Text.hex 4 code

/-- A code point by its UTF-16 units. -/
def codePointEscape (code : Nat) : Text :=
  if code < 0x10000 then unitEscape code
  else
    let offset := code - 0x10000
    unitEscape (0xD800 + offset / 0x400) ++ unitEscape (0xDC00 + offset % 0x400)

/-- A character in a string. -/
def writeChar (charset : Charset) (c : Char) : Text :=
  if c = '"' then ['\\', '"']
  else if c = '\\' then ['\\', '\\']
  else if c = '\n' then ['\\', 'n']
  else if c = '\r' then ['\\', 'r']
  else if c = '\t' then ['\\', 't']
  else if c = '\x08' then ['\\', 'b']
  else if c = '\x0C' then ['\\', 'f']
  else if c.toNat < 0x20 then unitEscape c.toNat
  else if charset = .ascii && c.toNat ≥ 0x7F then codePointEscape c.toNat
  else [c]

/-- A string between double quotes. -/
def writeString (charset : Charset) (text : Text) : Text :=
  '"' :: text.flatMap (writeChar charset) ++ ['"']

/-- Numbers have an exponent from `10 ^ 16` up and below `10 ^ -4`. -/
def numberFormat : Decimal.Spelling where
  mostBefore := 16
  leastBefore := -3
  exponentWidth := 2

/-- A double. -/
def writeFloat (number : Float) : Text :=
  numberFormat.float "Infinity".toList "NaN".toList number

/-- How the items of arrays and objects are set. -/
inductive Spacing where
  /-- All on one line. -/
  | line
  /-- Each on a line of its own, at the given level. -/
  | block (level : Nat)
deriving DecidableEq, Repr

/-- The spacing one level deeper. -/
def Spacing.deeper : Spacing → Spacing
  | .line => .line
  | .block level => .block (level + 1)

/-- What stands before the first item and after the last one. -/
def Spacing.edge : Spacing → Text
  | .line => []
  | .block level => '\n' :: List.replicate (2 * level) ' '

/-- What stands between two items. -/
def Spacing.between : Spacing → Text
  | .line => [',', ' ']
  | .block level => ',' :: Spacing.edge (.block level)

/-- Items between brackets. -/
def bracketed (spacing : Spacing) (opener closer : Char) (items : List Text) : Text :=
  if items.isEmpty then [opener, closer]
  else
    opener :: spacing.deeper.edge ++ Text.join spacing.deeper.between items ++ spacing.edge ++
      [closer]

mutual

/-- A value in a spacing. -/
def write (charset : Charset) (spacing : Spacing) : Json → Text
  | .null => "null".toList
  | .bool true => "true".toList
  | .bool false => "false".toList
  | .int value => Text.ofInt value
  | .float value => writeFloat value
  | .string value => writeString charset value
  | .array items => bracketed spacing '[' ']' (writeItems charset spacing.deeper items)
  | .object fields => bracketed spacing '{' '}' (writeFields charset spacing.deeper fields)

/-- The items of an array. -/
def writeItems (charset : Charset) (spacing : Spacing) : List Json → List Text
  | [] => []
  | item :: items => write charset spacing item :: writeItems charset spacing items

/-- The fields of an object, each with its name. -/
def writeFields (charset : Charset) (spacing : Spacing) : List (Text × Json) → List Text
  | [] => []
  | (name, value) :: fields =>
      (writeString charset name ++ [':', ' '] ++ write charset spacing value) ::
        writeFields charset spacing fields

end

/-- Why a value is not written. -/
inductive Refusal where
  /-- An integer has too many digits. -/
  | tooLong
  /-- Too many arrays and objects are open. -/
  | tooDeep
deriving DecidableEq, Repr

/-- The report on a value that is not written. -/
def Refusal.message : Refusal → Text
  | .tooLong => Numeral.unwritable
  | .tooDeep => "maximum recursion depth exceeded while encoding a JSON object".toList

mutual

/-- Why a value is not written inside a number of open arrays and objects; of several reasons the
first one in the order of writing counts. -/
def refusal? (level : Nat) : Json → Option Refusal
  | .int value => if (Numeral.write? value).isSome then none else some .tooLong
  | .array items => if level < depthLimit then itemsRefusal? (level + 1) items else some .tooDeep
  | .object fields =>
      if level < depthLimit then fieldsRefusal? (level + 1) fields else some .tooDeep
  | _ => none

/-- Why an item of an array is not written. -/
def itemsRefusal? (level : Nat) : List Json → Option Refusal
  | [] => none
  | item :: items => (refusal? level item).or (itemsRefusal? level items)

/-- Why a field of an object is not written. -/
def fieldsRefusal? (level : Nat) : List (Text × Json) → Option Refusal
  | [] => none
  | (_, value) :: fields => (refusal? level value).or (fieldsRefusal? level fields)

end

/-- A value on one line, in full Unicode. -/
def render (json : Json) : Text :=
  write .unicode .line json

/-- A value with one item to a line, in ASCII. -/
def renderBlock (json : Json) : Text :=
  write .ascii (.block 0) json

end Json

end IdlFormat
