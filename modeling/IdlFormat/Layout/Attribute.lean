import IdlFormat.Layout.Style
import IdlFormat.Source.Bracket
import IdlFormat.Source.Mask
import IdlFormat.Text.Word

/-!
# Layout of attributes

An attribute block with one short attribute stays on one line; otherwise every attribute has a line
of its own, one level deeper than the brackets. An attribute that is a call is written without a
blank before its parenthesis, and its arguments in one of three ways: an identifier made of
hexadecimal digits and hyphens loses all blanks, arguments with array bounds only have their blanks
collapsed, and all others also get exactly one space after each comma.
-/

namespace IdlFormat

namespace Attribute

/-- The characters of a globally unique identifier. -/
def isGuidChar (c : Char) : Bool :=
  ('0' ≤ c && c ≤ '9') || ('a' ≤ c && c ≤ 'f') || ('A' ≤ c && c ≤ 'F') || c = '-'

/-- The layout of the arguments of an attribute. -/
def formatArguments (arguments : Text) : Text :=
  let compact := arguments.compact
  if !compact.isEmpty && compact.all isGuidChar then compact
  else if arguments.contains '[' then arguments.collapse.trim
  else arguments.collapse.respaceCommas.trim

/-- The name and the arguments of a text that is a call from its first to its last character. -/
def call? (text : Text) : Option (Text × Text) :=
  let name := text.leadingWord
  match (text.drop name.length).dropWhile isBlank with
  | '(' :: inner =>
      if !name.isEmpty && inner.getLast? = some ')' then some (name, inner.dropLast) else none
  | _ => none

/-- The layout of an attribute without literals and comments. -/
def respace (text : Text) : Text :=
  let spaced := text.collapse.trim.spaceCommas
  match call? spaced with
  | some (name, arguments) => name ++ ['('] ++ formatArguments arguments.trim ++ [')']
  | none => spaced

/-- The layout of one attribute. -/
def format (text : Text) : Except Numeral.TooLong Text :=
  let masked := mask text
  unmask masked.saved (respace masked.text)

/-- What stands between the brackets of a block; a block that was never closed gets its missing
inner brackets. -/
def content (block : Text) : Text :=
  match Bracket.openDepth block with
  | 0 => (block.drop 1).dropLast
  | missing + 1 => closeLiterals (block.drop 1) ++ List.replicate missing ']'

/-- The attributes of a block, trimmed and without the empty ones. -/
def split (block : Text) : List Text :=
  ((Bracket.splitTopLevel (· = ',') Bracket.all (content block)).map Text.trim).filter
    (!·.isEmpty)

/-- Lines with the same indentation and a comma at the end of all but the last. -/
def separated (indent : Text) : List Text → List Text
  | [] => []
  | [last] => [indent ++ last]
  | first :: others => (indent ++ first ++ [',']) :: separated indent others

/-- The lines of a block with the given attributes. -/
def arrange (style : Style) (level : Int) (attributes : List Text) : List Text :=
  let outer := style.indent level
  let wrapped :=
    [outer ++ ['[']] ++ separated (style.indent (level + 1)) attributes ++ [outer ++ [']']]
  match attributes with
  | [] => [outer ++ ['[', ']']]
  | [single] =>
      if single.length < style.inlineLimit then [outer ++ ['['] ++ single ++ [']']]
      else wrapped
  | _ => wrapped

/-- The lines of an attribute block at a level. -/
def formatBlock (style : Style) (level : Int) (block : Text) :
    Except Numeral.TooLong (List Text) := do
  let attributes ← (split block).mapM format
  return arrange style level attributes

end Attribute

end IdlFormat
