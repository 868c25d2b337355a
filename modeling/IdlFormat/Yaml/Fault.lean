import IdlFormat.Text.Numeral
import IdlFormat.Yaml.Date

/-!
# Faults in YAML

Most faults only say that a document is malformed. A scalar that is typed by its spelling or its tag
but cannot be converted to that type has a fault of its own.
-/

namespace IdlFormat

namespace Yaml

/-- Why a document cannot be read. -/
inductive Fault where
  /-- The document is not well formed. -/
  | malformed
  /-- Too many collections are open. -/
  | tooDeep
  /-- An escape gives a code that belongs to no character. -/
  | badCode (code : Nat)
  /-- A number is no integer. -/
  | badInteger (fault : Numeral.Fault)
  /-- A number with a point cannot be read. -/
  | badFloat (text : Text)
  /-- A number has no digits at all. -/
  | emptyNumber
  /-- A truth value is none of the known words. -/
  | badTruth (text : Text)
  /-- A date does not exist. -/
  | badDate (fault : Date.Fault)
  /-- A date is not written as one. -/
  | noDate
deriving DecidableEq, Repr

/-- The codes from here on are too large to be looked at. -/
def codeLimit : Nat := Nat.pow 2 31

/-- The report on a fault; that a document is malformed is not reported. -/
def Fault.message? : Fault → Option Text
  | .malformed => none
  | .tooDeep => some "maximum recursion depth exceeded".toList
  | .badCode code =>
      some (if code < codeLimit then "chr() arg not in range(0x110000)".toList
        else "Python int too large to convert to C int".toList)
  | .badInteger fault => some fault.message
  | .badFloat text => some ("could not convert string to float: ".toList ++ text.quoted)
  | .emptyNumber => some "string index out of range".toList
  | .badTruth text => some text.quoted
  | .badDate fault => some fault.message
  | .noDate => some "'NoneType' object has no attribute 'groupdict'".toList

/-- Whether a fault lies in a value that cannot exist, which a user is told; any other fault breaks
the reading off. -/
def Fault.isReported : Fault → Bool
  | .badCode code => code < codeLimit
  | .badInteger _ | .badFloat _ | .badDate _ => true
  | .malformed | .tooDeep | .emptyNumber | .badTruth _ | .noDate => false

end Yaml

end IdlFormat
