import IdlFormat.Layout.Attribute
import IdlFormat.Layout.BlockComment
import IdlFormat.Layout.Clean
import IdlFormat.Token.Basic

/-!
# Layout of tokens

Braces stand on lines of their own and the indentation follows them, never below zero. Directives
always start at the first column. Blank lines are decided here alone: after top-level elements,
between a directive and what follows it, and between a member and the attributes of the next one.
-/

namespace IdlFormat

namespace Layout

/-- A closing brace with one space after each comma of the alias list fused to it. -/
def formatCloseBrace (text : Text) : Text :=
  if text.contains ' ' then
    let brace := text.takeWhile (· != ' ')
    let aliases := (text.dropWhile (· != ' ')).drop 1
    let spaced := (Text.trim aliases).respaceCommas.collapse
    brace ++ [' '] ++ spaced.tighten ';'
  else text

/-- The level after a token. -/
def nextLevel (level : Nat) (token : Token) : Nat :=
  match token.kind with
  | .braceOpen => level + 1
  | .braceClose => level - 1
  | _ => level

/-- The lines of a token itself. -/
def tokenLines (style : Style) (level : Nat) (token : Token) :
    Except Numeral.TooLong (List Text) :=
  let indent := style.indent level
  match token.kind with
  | .directive => .ok [token.text]
  | .comment =>
      match token.multilineText? with
      | some comment => .ok [BlockComment.format indent comment]
      | none => .ok [indent ++ token.text.trim]
  | .attributeBlock => Attribute.formatBlock style level token.text
  | .braceOpen => .ok [indent ++ ['{']]
  | .braceClose =>
      .ok [style.indent (nextLevel level token : Nat) ++ formatCloseBrace token.text]
  | _ => .ok [indent ++ token.text]

/-- Whether a blank line stands before a token. -/
def blankBefore (level : Nat) (previous : Option Token) (token : Token) : Bool :=
  token.kind = .attributeBlock && 0 < level &&
    previous.any fun before => before.kind = .statement && Statement.isMember before.text

/-- Whether a blank line stands between a token and the next one. -/
def blankBetween (level : Nat) (token next : Token) : Bool :=
  match token.kind with
  | .directive => next.kind ≠ .directive && next.kind ≠ .comment
  | .comment => level = 0 && (next.kind = .attributeBlock || next.kind = .declaration)
  | .declaration => level = 0 && next.kind ≠ .braceOpen
  | .braceClose => nextLevel level token = 0
  | _ => false

/-- The lines of tokens that follow `previous` at a level. -/
def linesFrom (style : Style) (level : Nat) (previous : Option Token) :
    List Token → Except Numeral.TooLong (List Text)
  | [] => .ok []
  | token :: tokens => do
      let own ← tokenLines style level token
      let rest ← linesFrom style (nextLevel level token) (some token) tokens
      let before := if blankBefore level previous token then [[]] else []
      let after := if tokens.head?.any (blankBetween level token) then [[]] else []
      return before ++ own ++ after ++ rest

/-- The document that tokens are printed as. -/
def format (style : Style) (tokens : List Token) : Except Numeral.TooLong Text := do
  let lines ← linesFrom style 0 none tokens
  return finalize (Text.joinLines lines)

end Layout

end IdlFormat
