import IdlFormat.Json.Printer
import IdlFormat.Setting.Value

/-!
# Values inside texts

A value that stands where a text is built is written out: texts as they are, numbers in decimal, and
lists and records with their parts, in which texts are quoted.
-/

namespace IdlFormat

namespace Setting

namespace Value

/-- A truth value as a word. -/
def displayBool (value : Bool) : Text :=
  if value then "True".toList else "False".toList

/-- A number with a fraction or an exponent. -/
def displayFloat (value : Float) : Text :=
  Json.numberFormat.float "inf".toList "nan".toList value

mutual

/-- A value as a part of a list or record. -/
def displayPart : Value → Text
  | .null => "None".toList
  | .bool value => displayBool value
  | .int value => Text.ofInt value
  | .float value => displayFloat value
  | .text value => value.quoted
  | .list items => '[' :: Text.join [',', ' '] (displayItems items) ++ [']']
  | .record fields => '\x7b' :: Text.join [',', ' '] (displayFields fields) ++ ['\x7d']
  | .brokenText | .other => []

/-- The items of a list. -/
def displayItems : List Value → List Text
  | [] => []
  | item :: items => displayPart item :: displayItems items

/-- The fields of a record. -/
def displayFields : List (Text × Value) → List Text
  | [] => []
  | (name, value) :: fields =>
      (name.quoted ++ [':', ' '] ++ displayPart value) :: displayFields fields

end

/-- A value inside a text. -/
def display : Value → Text
  | .text value => value
  | value => displayPart value

end Value

end Setting

end IdlFormat
