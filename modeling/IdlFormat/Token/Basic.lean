import IdlFormat.Statement

/-!
# Tokens

A token is a structural unit of source text. Whether the next token lands directly in the body of an
enumeration is read off the tokens before it: go back to the brace that is still open and look at
the declaration right in front of it.
-/

namespace IdlFormat

namespace Token

/-- The kinds of tokens. The last three are never cut from source text and are printed like
statements. -/
inductive Kind where
  /-- A line or block comment. -/
  | comment
  /-- A preprocessor line, with its continuation lines. -/
  | directive
  /-- A block in square brackets. -/
  | attributeBlock
  /-- An opening brace. -/
  | braceOpen
  /-- A closing brace, with a semicolon or alias list fused to it. -/
  | braceClose
  /-- A statement or a member of an enumeration. -/
  | statement
  /-- The head of a declaration. -/
  | declaration
  /-- A unit that a semicolon ends. -/
  | terminatedUnit
  /-- A keyword on its own. -/
  | keyword
  /-- White space. -/
  | whitespace
deriving DecidableEq, Repr

/-- All kinds. -/
def Kind.all : List Kind :=
  [.comment, .directive, .attributeBlock, .braceOpen, .braceClose, .statement, .declaration,
    .terminatedUnit, .keyword, .whitespace]

/-- The name of a kind. -/
def Kind.name : Kind → String
  | .comment => "comment"
  | .directive => "directive"
  | .attributeBlock => "attribute-block"
  | .braceOpen => "brace-open"
  | .braceClose => "brace-close"
  | .statement => "statement"
  | .declaration => "declaration"
  | .terminatedUnit => "semicolon-terminated-unit"
  | .keyword => "keyword"
  | .whitespace => "whitespace"

/-- No kind of tokens has this name. -/
structure UnknownKind where
  /-- The name. -/
  name : Text
deriving DecidableEq, Repr

/-- The report on a name that belongs to no kind. -/
def UnknownKind.message (unknown : UnknownKind) : Text :=
  unknown.name.quoted ++ " is not a valid TokenKind".toList

/-- The kind of a name. -/
def Kind.ofName (name : Text) : Except UnknownKind Kind :=
  match Kind.all.find? fun kind => kind.name.toList = name with
  | some kind => .ok kind
  | none => .error ⟨name⟩

end Token

/-- A structural unit of source text. -/
structure Token where
  /-- What the token is. -/
  kind : Token.Kind
  /-- Its text, respaced if it is a statement, declaration or closing brace. -/
  text : Text
  /-- The text as it stands in the source, kept for block comments. -/
  rawText : Option Text := none
deriving DecidableEq, Repr

namespace Token

/-- The raw text of a comment that spans several lines. -/
def multilineText? (token : Token) : Option Text :=
  if token.kind = .comment then token.rawText.filter (·.contains '\n') else none

/-- Whether a token is a comment that spans several lines. -/
def isMultiline (token : Token) : Bool :=
  token.multilineText?.isSome

/-- Whether a token heads the body of an enumeration. -/
def headsEnum (token : Token) : Bool :=
  token.kind = .declaration && Statement.mentionsEnum token.text

/-- Whether the brace left open by the preceding tokens, given last first, belongs to an
enumeration; `depth` counts the closing braces that still wait for their opening ones. -/
def insideEnumFrom (depth : Nat) : List Token → Bool
  | [] => false
  | token :: before =>
      match token.kind, depth with
      | .braceClose, _ => insideEnumFrom (depth + 1) before
      | .braceOpen, 0 => before.head?.any headsEnum
      | .braceOpen, depth + 1 => insideEnumFrom depth before
      | _, _ => insideEnumFrom depth before

/-- Whether the token after the given ones would stand directly in the body of an enumeration. -/
def insideEnum (tokens : List Token) : Bool :=
  insideEnumFrom 0 tokens.reverse

end Token

end IdlFormat
