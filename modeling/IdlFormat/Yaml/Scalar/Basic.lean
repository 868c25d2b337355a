import IdlFormat.Yaml.Cursor
import IdlFormat.Yaml.Fault

/-!
# Scalars

A scalar is written plainly, between quotes, or as a block of lines. In plain and quoted scalars a
single line break stands for a space; of several line breaks, the first is dropped and the others
are kept. Blanks around line breaks do not count.
-/

namespace IdlFormat

namespace Yaml

/-- What reading gives. -/
abbrev Result := Except Fault

/-- What line breaks in a scalar stand for. -/
def fold : Text → Text
  | [] => []
  | first :: others =>
      if normalBreak first != '\n' then first :: others.map normalBreak
      else if others.isEmpty then [' ']
      else others.map normalBreak

/-- How a scalar is written, as far as it matters for its meaning. -/
inductive Scalar.Form where
  /-- Without quotes. -/
  | plain
  /-- Between quotes or as a block. -/
  | marked
  /-- Between quotes, with an escape that gives half a surrogate pair. -/
  | broken
deriving DecidableEq, Repr

/-- A scalar that was read. -/
structure Scalar where
  /-- What the scalar holds. -/
  text : Text
  /-- How it is written. -/
  form : Scalar.Form
  /-- Whether a line break follows it that was read with it. -/
  crossed : Bool := false
  /-- What follows it. -/
  cursor : Cursor
deriving DecidableEq, Repr

end Yaml

end IdlFormat
