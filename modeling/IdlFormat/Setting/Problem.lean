import IdlFormat.Text.Basic

/-!
# Problems with settings

A setting that cannot be used is reported by its path, a code and a sentence. A check reports all
problems of a record at once, in the order of its fields.
-/

namespace IdlFormat

namespace Setting

/-- What is wrong with a value. -/
inductive Fault where
  /-- The value of a required field is not there. -/
  | missing
  /-- The value cannot be an integer. -/
  | notInteger
  /-- The text does not write an integer. -/
  | unreadableInteger
  /-- The number or numeral is too large for an integer. -/
  | oversizedInteger
  /-- The number is not whole. -/
  | fractional
  /-- The number is infinite or not a number. -/
  | notFinite
  /-- The value cannot be a truth value. -/
  | notBoolean
  /-- The number or text stands for no truth value. -/
  | unreadableBoolean
  /-- The value is no text. -/
  | notText
  /-- The text is no Unicode text. -/
  | notUnicode
  /-- The value is no list. -/
  | notList
  /-- The value is no record of the given kind. -/
  | notRecord (kind : String)
  /-- The value is of the right type but not allowed. -/
  | refused (reason : Text)
deriving DecidableEq, Repr

/-- The code of a fault. -/
def Fault.code : Fault → String
  | .missing => "missing"
  | .notInteger => "int_type"
  | .unreadableInteger => "int_parsing"
  | .oversizedInteger => "int_parsing_size"
  | .fractional => "int_from_float"
  | .notFinite => "finite_number"
  | .notBoolean => "bool_type"
  | .unreadableBoolean => "bool_parsing"
  | .notText => "string_type"
  | .notUnicode => "string_unicode"
  | .notList => "list_type"
  | .notRecord _ => "model_type"
  | .refused _ => "value_error"

/-- The sentence on a fault. -/
def Fault.sentence : Fault → Text
  | .missing => "Field required".toList
  | .notInteger => "Input should be a valid integer".toList
  | .unreadableInteger =>
      "Input should be a valid integer, unable to parse string as an integer".toList
  | .oversizedInteger =>
      "Unable to parse input string as an integer, exceeded maximum size".toList
  | .fractional =>
      "Input should be a valid integer, got a number with a fractional part".toList
  | .notFinite => "Input should be a finite number".toList
  | .notBoolean => "Input should be a valid boolean".toList
  | .unreadableBoolean =>
      "Input should be a valid boolean, unable to interpret input".toList
  | .notText => "Input should be a valid string".toList
  | .notUnicode =>
      "Input should be a valid string, unable to parse raw data as a unicode string".toList
  | .notList => "Input should be a valid list".toList
  | .notRecord kind =>
      "Input should be a valid dictionary or instance of ".toList ++ kind.toList
  | .refused reason => "Value error, ".toList ++ reason

/-- A fault of the value at a path. -/
structure Problem where
  /-- The fields and list indices that lead to the value. -/
  path : List Text
  /-- What is wrong with it. -/
  fault : Fault
deriving DecidableEq, Repr

/-- The report on a problem. -/
def Problem.message (problem : Problem) : Text :=
  Text.join ['.'] problem.path ++ [':', ' '] ++ problem.fault.code.toList ++ [':', ' '] ++
    problem.fault.sentence

/-- A value, or everything that is wrong with it. -/
abbrev Checked (α : Type) := Except (List Problem) α

namespace Checked

variable {α β : Type}

/-- A check that fails with one fault of the value itself. -/
def fail (fault : Fault) : Checked α :=
  .error [⟨[], fault⟩]

/-- The check of the value that a field holds. -/
def within (field : Text) (check : Checked α) : Checked α :=
  check.mapError fun problems =>
    problems.map fun problem => { problem with path := field :: problem.path }

/-- Two checks, with the problems of both. -/
def both (first : Checked α) (second : Checked β) : Checked (α × β) :=
  match first, second with
  | .ok left, .ok right => .ok (left, right)
  | .ok _, .error problems => .error problems
  | .error problems, .ok _ => .error problems
  | .error problems, .error others => .error (problems ++ others)

/-- The checks of the items of a list, each at its index from `index` on. -/
def each (check : α → Checked β) (index : Nat) : List α → Checked (List β)
  | [] => .ok []
  | item :: items =>
      (both ((check item).within (Text.ofNat index)) (each check (index + 1) items)).map
        fun (first, rest) => first :: rest

end Checked

/-- The report on a list of problems, one to a line. -/
def report (problems : List Problem) : Text :=
  Text.joinLines (problems.map Problem.message)

end Setting

end IdlFormat
