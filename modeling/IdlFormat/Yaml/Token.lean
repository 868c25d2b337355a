import IdlFormat.Yaml.Name

/-!
# Tokens of YAML

The layout of a document is told by tokens: where a block collection begins and ends, and which
nodes are keys. A key is only known as one when the colon after it is found, so the tokens that mark
it are put before it later.
-/

namespace IdlFormat

namespace Yaml

/-- A token. -/
inductive Token where
  /-- A directive. -/
  | directive (directive : Directive)
  /-- The mark that starts a document. -/
  | documentStart
  /-- The mark that ends a document. -/
  | documentEnd
  /-- The begin of a block sequence. -/
  | sequenceStart
  /-- The begin of a block mapping. -/
  | mappingStart
  /-- The end of a block collection. -/
  | blockEnd
  /-- The opening bracket of a flow sequence. -/
  | bracketOpen
  /-- The closing bracket of a flow sequence. -/
  | bracketClose
  /-- The opening brace of a flow mapping. -/
  | braceOpen
  /-- The closing brace of a flow mapping. -/
  | braceClose
  /-- The dash of an item. -/
  | dash
  /-- The comma in a flow collection. -/
  | comma
  /-- The begin of a key. -/
  | key
  /-- The colon before a value. -/
  | colon
  /-- A node that stands elsewhere. -/
  | alias (name : Text)
  /-- The name under which a node can be found. -/
  | anchor (name : Text)
  /-- The tag of a node. -/
  | tag (name : TagName)
  /-- A scalar. -/
  | scalar (text : Text) (form : Scalar.Form)
  /-- The end of the text. -/
  | finished
  /-- The place from which on the text cannot be read. -/
  | failed (fault : Fault)
deriving DecidableEq, Repr

end Yaml

end IdlFormat
