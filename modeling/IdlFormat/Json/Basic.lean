import IdlFormat.Table

/-!
# JSON values

Objects are tables: they keep their fields in order and each name once.
-/

namespace IdlFormat

/-- A JSON value. Numbers are integers or doubles, by the way they are written. -/
inductive Json where
  /-- The null value. -/
  | null
  /-- A truth value. -/
  | bool (value : Bool)
  /-- A number without fraction and exponent. -/
  | int (value : Int)
  /-- Any other number. -/
  | float (value : Float)
  /-- A string. -/
  | string (value : Text)
  /-- An array. -/
  | array (items : List Json)
  /-- An object. -/
  | object (fields : List (Text × Json))
deriving Repr, Inhabited

namespace Json

/-- The value of a field of an object. -/
def field? (json : Json) (name : String) : Option Json :=
  match json with
  | .object fields => Table.get? name.toList fields
  | _ => none

/-- A string value. -/
def ofString (value : String) : Json :=
  .string value.toList

/-- The fields of an object, their names given as strings. -/
def table (fields : List (String × Json)) : Table Json :=
  fields.map fun (name, value) => (name.toList, value)

/-- An object with the given fields. -/
def ofFields (fields : List (String × Json)) : Json :=
  .object (table fields)

/-- The most arrays and objects that may be open at once, in reading and in writing. -/
def depthLimit : Nat := 989

end Json

end IdlFormat
