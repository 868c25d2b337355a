import IdlFormat.Yaml.Date
import IdlFormat.Yaml.Number

/-!
# Tags

A tag says what a node stands for. Where none is written, a plain scalar has the tag that its
spelling asks for, and every other node the tag of its kind.
-/

namespace IdlFormat

namespace Yaml

/-- What a node stands for. -/
inductive Tag where
  /-- No value. -/
  | null
  /-- A truth value. -/
  | bool
  /-- An integer. -/
  | int
  /-- A number with a point. -/
  | float
  /-- A date. -/
  | date
  /-- Binary data. -/
  | binary
  /-- A text. -/
  | text
  /-- A sequence. -/
  | sequence
  /-- A mapping. -/
  | mapping
  /-- The keys of a mapping. -/
  | set
  /-- A sequence of mappings with one entry each. -/
  | pairs
  /-- As a key: the value is a mapping whose entries belong here. -/
  | merge
  /-- As a key: the value stands for the whole mapping where a scalar is wanted. -/
  | standIn
  /-- Anything else. -/
  | unknown
deriving DecidableEq, Repr

namespace Tag

/-- What the names of all known tags begin with. -/
def space : Text :=
  "tag:yaml.org,2002:".toList

/-- The tags by the rest of their names. -/
def names : List (String × Tag) :=
  [("null", .null), ("bool", .bool), ("int", .int), ("float", .float), ("timestamp", .date),
    ("binary", .binary), ("str", .text), ("seq", .sequence), ("map", .mapping), ("set", .set),
    ("omap", .pairs), ("pairs", .pairs), ("merge", .merge), ("value", .standIn)]

/-- The tag with a name. -/
def ofName (name : Text) : Tag :=
  match names.find? fun (suffix, _) => space ++ suffix.toList = name with
  | some (_, tag) => tag
  | none => .unknown

/-- The words for truth values, in lower case. -/
def truths : List (Text × Bool) :=
  [("yes".toList, true), ("no".toList, false), ("true".toList, true), ("false".toList, false),
    ("on".toList, true), ("off".toList, false)]

/-- Whether a text is a word in lower case, in upper case, or with only its first letter in upper
case. -/
def isSpelling (word text : Text) : Bool :=
  text = word || text = word.map Char.toUpper ||
    text = (word.take 1).map Char.toUpper ++ word.drop 1

/-- The tag that a spelling asks for. -/
def ofSpelling (text : Text) : Tag :=
  if truths.any fun (word, _) => isSpelling word text then .bool
  else if Number.isFloat text then .float
  else if Number.isInteger text then .int
  else if text = ['<', '<'] then .merge
  else if text = ['~'] || text.isEmpty || isSpelling "null".toList text then .null
  else if Date.isPlain text then .date
  else if text = ['='] then .standIn
  else .text

/-- The text without a line feed at its end, if that is not all. -/
def dropFinalBreak (text : Text) : Text :=
  if text.getLast? = some '\n' && 1 < text.length then text.dropLast else text

/-- The tag of a scalar that is known by its spelling only, for which a line feed at the end does
not count. -/
def ofScalar (text : Text) : Tag :=
  match ofSpelling text with
  | .text => ofSpelling (dropFinalBreak text)
  | tag => tag

end Tag

end Yaml

end IdlFormat
