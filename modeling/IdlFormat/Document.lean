import IdlFormat.Layout.Basic
import IdlFormat.Text.Lines
import IdlFormat.Token.OfSource

/-!
# Documents

The whole of formatting: line breaks are normalised, the text is cut into tokens, and the tokens are
printed.
-/

namespace IdlFormat

namespace Document

/-- The tokens of a document with any convention of line breaks. -/
def tokens (text : Text) : Except Numeral.TooLong (List Token) :=
  Token.ofSource text.normalizeBreaks

/-- The formatted document. -/
def format (style : Style) (text : Text) : Except Numeral.TooLong Text := do
  Layout.format style (← tokens text)

end Document

end IdlFormat
