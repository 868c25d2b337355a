import IdlFormat.Span.Basic
import IdlFormat.Token.Basic
import IdlFormat.Token.EnumMember

/-!
# Tokens of a source text

Every span gives one token, except that a unit of code in the body of an enumeration gives one token
per member. The tokens before a unit decide whether it stands in such a body.
-/

namespace IdlFormat

namespace Token

/-- The tokens of a unit of code. `inEnum` says whether it stands directly in the body of an
enumeration, and `closesBody` whether that body ends after it. -/
def ofCodeUnit (inEnum closesBody : Bool) (text : Text) :
    Except Numeral.TooLong (List Token) := do
  let normalized ← Statement.normalize text
  if Statement.isDeclaration normalized then
    return [{ kind := .declaration, text := normalized }]
  let members := if inEnum then EnumMember.split (!closesBody) normalized else []
  if members.isEmpty then
    return [{ kind := .statement, text := normalized }]
  return members.map fun member => { kind := .statement, text := member }

/-- The tokens of a span, where `before` holds the tokens in front of it, last first. -/
def ofSpan (before : List Token) (closesBody : Bool) :
    Span → Except Numeral.TooLong (List Token)
  | .comment .line text => .ok [{ kind := .comment, text }]
  | .comment .block text => .ok [{ kind := .comment, text, rawText := some text }]
  | .directive text => .ok [{ kind := .directive, text }]
  | .attributeBlock text => .ok [{ kind := .attributeBlock, text }]
  | .braceOpen => .ok [{ kind := .braceOpen, text := ['{'] }]
  | .braceClose token _ => .ok [{ kind := .braceClose, text := token }]
  | .codeUnit text => ofCodeUnit (insideEnumFrom 0 before) closesBody text

/-- The tokens `before`, given last first, followed by those of the spans. -/
def ofSpansAfter (before : List Token) : List Span → Except Numeral.TooLong (List Token)
  | [] => .ok before.reverse
  | span :: spans => do
      let tokens ← ofSpan before (Span.closesBody spans) span
      ofSpansAfter (tokens.reverse ++ before) spans

/-- The tokens of a source text. -/
def ofSource (text : Text) : Except Numeral.TooLong (List Token) :=
  ofSpansAfter [] (Span.split text)

end Token

end IdlFormat
