import IdlFormat.Decimal.Shortest
import IdlFormat.Json.Basic
import IdlFormat.Setting.Integer
import IdlFormat.Setting.Problem

/-!
# Values of settings

Settings come as values without a schema. Reading them is lenient where the meaning is clear: a
truth value, a whole number that is not too large or a numeral is an integer, and some numbers and
words are truth values. Texts and lists are not converted.
-/

namespace IdlFormat

namespace Setting

/-- A value as a settings file or a request gives it. -/
inductive Value where
  /-- No value. -/
  | null
  /-- A truth value. -/
  | bool (value : Bool)
  /-- An integer. -/
  | int (value : Int)
  /-- A number with a fraction or an exponent. -/
  | float (value : Float)
  /-- A text. -/
  | text (value : Text)
  /-- A list. -/
  | list (items : List Value)
  /-- A record of named values, each name once. -/
  | record (fields : List (Text × Value))
  /-- A text with half a surrogate pair in it, which is no Unicode text. -/
  | brokenText
  /-- A value that no setting can have, such as a date. -/
  | other
deriving Repr, Inhabited

namespace Value

mutual

/-- The value that JSON writes. -/
def ofJson : Json → Value
  | .null => .null
  | .bool value => .bool value
  | .int value => .int value
  | .float value => .float value
  | .string value => .text value
  | .array items => .list (ofJsonItems items)
  | .object fields => .record (ofJsonFields fields)

/-- The values that a JSON array writes. -/
def ofJsonItems : List Json → List Value
  | [] => []
  | item :: items => ofJson item :: ofJsonItems items

/-- The values that a JSON object writes. -/
def ofJsonFields : List (Text × Json) → List (Text × Value)
  | [] => []
  | (name, value) :: fields => (name, ofJson value) :: ofJsonFields fields

end

/-- Whether an integer fits into a machine word. -/
def fitsWord (number : Int) : Bool :=
  -Int.pow 2 63 ≤ number && number < Int.pow 2 63

/-- Reads a whole number that is written with a fraction or an exponent. It has to lie strictly
between the least machine word and the one after the greatest. -/
def wholeNumber (number : Float) : Checked Int :=
  match Decimal.toInt? number with
  | .ok whole => if whole.natAbs < Nat.pow 2 63 then .ok whole else .fail .oversizedInteger
  | .error .fractional => .fail .fractional
  | .error .infinite => .fail .notFinite

/-- Reads an integer. -/
def integer : Value → Checked Int
  | .bool value => .ok (if value then 1 else 0)
  | .int value => .ok value
  | .float value => wholeNumber value
  | .text value =>
      (Integer.ofText value).mapError fun
        | .unreadable => [⟨[], .unreadableInteger⟩]
        | .tooLong => [⟨[], .oversizedInteger⟩]
  | .brokenText => .fail .notUnicode
  | _ => .fail .notInteger

/-- The words that stand for truth values, in lower case. -/
def booleanWords : List (String × Bool) :=
  [("0", false), ("off", false), ("f", false), ("false", false), ("n", false), ("no", false),
    ("1", true), ("on", true), ("t", true), ("true", true), ("y", true), ("yes", true)]

/-- The truth value that a number stands for. -/
def booleanOfInteger (number : Int) : Checked Bool :=
  if number = 0 then .ok false
  else if number = 1 then .ok true
  else if fitsWord number then .fail .unreadableBoolean
  else .fail .notBoolean

/-- Reads a truth value. -/
def boolean : Value → Checked Bool
  | .bool value => .ok value
  | .int value => booleanOfInteger value
  | .float value =>
      match wholeNumber value with
      | .ok whole => booleanOfInteger whole
      | .error _ => .fail .notBoolean
  | .text value =>
      match booleanWords.find? fun (word, _) => word.toList = value.map Char.toLower with
      | some (_, meaning) => .ok meaning
      | none => .fail .unreadableBoolean
  | .brokenText => .fail .notUnicode
  | _ => .fail .notBoolean

/-- Reads a text. -/
def textual : Value → Checked Text
  | .text value => .ok value
  | .brokenText => .fail .notUnicode
  | _ => .fail .notText

/-- Reads a text that may be absent. -/
def optionalText : Value → Checked (Option Text)
  | .null => .ok none
  | value => (textual value).map some

/-- Reads a list of texts. -/
def texts : Value → Checked (List Text)
  | .list items => Checked.each textual 0 items
  | _ => .fail .notList

/-- Reads a field of a record, which has a default if it is not there. -/
def fieldOr {α : Type} (fields : Table Value) (name : String) (absent : Checked α)
    (read : Value → Checked α) : Checked α :=
  Checked.within name.toList <|
    match Table.get? name.toList fields with
    | some value => read value
    | none => absent

end Value

end Setting

end IdlFormat
