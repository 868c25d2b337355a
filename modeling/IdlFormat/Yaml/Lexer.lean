import IdlFormat.Yaml.Scalar.Block
import IdlFormat.Yaml.Scalar.Plain
import IdlFormat.Yaml.Scalar.Quoted
import IdlFormat.Yaml.Token

/-!
# Cutting YAML into tokens

The lexer knows the columns of the block collections that are open, and for each level of flow
collections the place at which a key may have begun. A key has to end on the line where it begins
and within `Lexer.keyLimit` characters.
-/

namespace IdlFormat

namespace Yaml

/-- A place at which a key may have begun. -/
structure KeyMark where
  /-- The number of tokens before it. -/
  number : Nat
  /-- Whether what begins here can be nothing but a key. -/
  required : Bool
  /-- Where it is. -/
  cursor : Cursor
deriving DecidableEq, Repr

/-- The lexer between two tokens. -/
structure Lexer where
  /-- What is still to be read. -/
  cursor : Cursor
  /-- The tokens so far, last one first. -/
  tokens : List Token := []
  /-- The column of the innermost block collection. -/
  indent : Int := -1
  /-- The columns of the block collections around it, innermost first. -/
  outer : List Int := []
  /-- Where a key may have begun, for the current level of flow collections and those around it. -/
  keys : List (Option KeyMark) := [none]
  /-- Whether a key may begin here. -/
  keyAllowed : Bool := true
deriving DecidableEq, Repr

namespace Lexer

/-- The most characters that a key has. -/
def keyLimit : Nat := 1024

/-- Whether a flow collection is open. -/
def inFlow (lexer : Lexer) : Bool :=
  lexer.keys.length > 1

/-- Adds a token. -/
def push (lexer : Lexer) (token : Token) : Lexer :=
  { lexer with tokens := token :: lexer.tokens }

/-- Puts tokens in front of the token with a number. -/
def insert (lexer : Lexer) (number : Nat) (tokens : List Token) : Lexer :=
  let (later, earlier) := lexer.tokens.splitAt (lexer.tokens.length - number)
  { lexer with tokens := later ++ tokens.reverse ++ earlier }

/-- Gives up the place of a key. -/
def release : Option KeyMark → Result (Option KeyMark)
  | some mark => if mark.required then .error .malformed else .ok none
  | none => .ok none

/-- Whether a key can no longer end here. -/
def isStale (cursor : Cursor) (mark : KeyMark) : Bool :=
  mark.cursor.line != cursor.line || cursor.index - mark.cursor.index > keyLimit

/-- Gives up all places of keys that can no longer end here. -/
def dropStale (lexer : Lexer) : Result Lexer := do
  let keys ← lexer.keys.mapM fun mark =>
    if mark.any (isStale lexer.cursor) then release mark else .ok mark
  return { lexer with keys }

/-- Gives up the place of a key on the current level. -/
def dropKey (lexer : Lexer) : Result Lexer := do
  let mark ← release lexer.keys.head?.join
  return { lexer with keys := mark :: lexer.keys.drop 1 }

/-- Notes that a key may begin here. -/
def markKey (lexer : Lexer) : Result Lexer :=
  if lexer.keyAllowed then do
    let lexer ← lexer.dropKey
    let required := !lexer.inFlow && lexer.indent = lexer.cursor.column
    let mark : KeyMark := ⟨lexer.tokens.length, required, lexer.cursor⟩
    return { lexer with keys := some mark :: lexer.keys.drop 1 }
  else .ok lexer

/-- Closes the block collections further right than a column. -/
def closeBlocks (column : Int) (tokens : List Token) (indent : Int) :
    List Int → List Token × Int × List Int
  | [] => (tokens, indent, [])
  | around :: outer =>
      if column < indent then closeBlocks column (.blockEnd :: tokens) around outer
      else (tokens, indent, around :: outer)

/-- Closes the block collections that end before a column. In a flow collection columns do not
count. -/
def unwind (lexer : Lexer) (column : Int) : Lexer :=
  if lexer.inFlow then lexer
  else
    let (tokens, indent, outer) := closeBlocks column lexer.tokens lexer.indent lexer.outer
    { lexer with tokens, indent, outer }

/-- Opens a block collection in a column, if there is none yet: whether one was opened. -/
def openBlock (lexer : Lexer) (column : Nat) : Lexer × Bool :=
  if lexer.indent < column then
    ({ lexer with indent := column, outer := lexer.indent :: lexer.outer }, true)
  else (lexer, false)

/-- Opens a block collection here, if there is none yet, with its token. -/
def openHere (lexer : Lexer) (token : Token) : Lexer :=
  match lexer.openBlock lexer.cursor.column with
  | (lexer, true) => lexer.push token
  | (lexer, false) => lexer

/-- Goes to the next token and closes the block collections that end before it. -/
def advance (lexer : Lexer) : Result Lexer := do
  let (cursor, crossed) := lexer.cursor.skip
  let keyAllowed := lexer.keyAllowed || (crossed && !lexer.inFlow)
  let lexer ← { lexer with cursor, keyAllowed }.dropStale
  return lexer.unwind cursor.column

/-- Takes some characters as a token, before which no key begins. -/
def takeMark (lexer : Lexer) (count : Nat) (token : Token) (keyAllowed : Bool) : Result Lexer := do
  let lexer ← lexer.dropKey
  return { lexer.push token with cursor := lexer.cursor.forward count, keyAllowed }

/-- Closes all block collections. -/
def closeAll (lexer : Lexer) : Lexer :=
  lexer.unwind (-1)

/-- Takes a directive. -/
def takeDirective (lexer : Lexer) : Result Lexer := do
  let lexer ← lexer.closeAll.dropKey
  let (directive, cursor) ← Directive.read lexer.cursor
  return { lexer.push (.directive directive) with cursor, keyAllowed := false }

/-- Takes the bracket or brace that opens a flow collection. -/
def takeOpening (lexer : Lexer) (token : Token) : Result Lexer := do
  let lexer ← lexer.markKey
  return { lexer.push token with
    cursor := lexer.cursor.next, keyAllowed := true, keys := none :: lexer.keys }

/-- Takes the bracket or brace that closes a flow collection. -/
def takeClosing (lexer : Lexer) (token : Token) : Result Lexer := do
  let lexer ← lexer.takeMark 1 token false
  return { lexer with keys := if lexer.inFlow then lexer.keys.drop 1 else lexer.keys }

/-- Takes the dash of an item, or the mark of a key that is told by itself. -/
def takeEntry (lexer : Lexer) (start token : Token) (keyAllowed : Bool) : Result Lexer :=
  if lexer.inFlow then lexer.takeMark 1 token keyAllowed
  else if lexer.keyAllowed then (lexer.openHere start).takeMark 1 token keyAllowed
  else .error .malformed

/-- Takes the colon before a value. If a key may have begun, it did. -/
def takeColon (lexer : Lexer) : Result Lexer :=
  match lexer.keys.head?.join with
  | some mark =>
      let released := { lexer with keys := none :: lexer.keys.drop 1 }
      let (opened, isNew) :=
        if lexer.inFlow then (released, false) else released.openBlock mark.cursor.column
      let marked := opened.insert mark.number (if isNew then [.mappingStart, .key] else [.key])
      .ok { marked.push .colon with cursor := lexer.cursor.next, keyAllowed := false }
  | none => lexer.takeEntry .mappingStart .colon (!lexer.inFlow)

/-- Takes a token that a key may begin with. -/
def takeNode (lexer : Lexer) (read : Cursor → Result (Token × Bool × Cursor)) : Result Lexer := do
  let lexer ← lexer.markKey
  let (token, keyAllowed, cursor) ← read lexer.cursor
  return { lexer.push token with cursor, keyAllowed }

/-- Takes a scalar that a key may begin with. -/
def takeScalar (lexer : Lexer) (read : Cursor → Result Scalar) : Result Lexer :=
  lexer.takeNode fun cursor => do
    let scalar ← read cursor
    return (.scalar scalar.text scalar.form, scalar.crossed, scalar.cursor)

/-- Takes the name of an anchor or alias. -/
def takeName (lexer : Lexer) (token : Text → Token) : Result Lexer :=
  lexer.takeNode fun cursor => do
    let (name, rest) ← anchorName cursor.next
    return (token name, false, rest)

/-- Takes a tag. -/
def takeTag (lexer : Lexer) : Result Lexer :=
  lexer.takeNode fun cursor => do
    let (name, rest) ← TagName.read cursor
    return (.tag name, false, rest)

/-- Takes a block scalar. -/
def takeBlock (lexer : Lexer) (folded : Bool) : Result Lexer := do
  let lexer ← lexer.dropKey
  let scalar ← blockScalar folded lexer.indent lexer.cursor.next
  return { lexer.push (.scalar scalar.text scalar.form) with
    cursor := scalar.cursor, keyAllowed := true }

/-- Takes the token that begins with a character. -/
def takeToken (lexer : Lexer) (c : Char) : Result Lexer :=
  let cursor := lexer.cursor
  let isMark := lexer.inFlow || atSpace (cursor.rest.drop 1)
  if c = '%' && cursor.column = 0 then lexer.takeDirective
  else if cursor.column = 0 && cursor.atTriple '-' then
    lexer.closeAll.takeMark 3 .documentStart false
  else if cursor.column = 0 && cursor.atTriple '.' then
    lexer.closeAll.takeMark 3 .documentEnd false
  else if c = '[' then lexer.takeOpening .bracketOpen
  else if c = '\x7b' then lexer.takeOpening .braceOpen
  else if c = ']' then lexer.takeClosing .bracketClose
  else if c = '\x7d' then lexer.takeClosing .braceClose
  else if c = ',' then lexer.takeMark 1 .comma true
  else if c = '-' && atSpace (cursor.rest.drop 1) then lexer.takeEntry .sequenceStart .dash true
  else if c = '?' && isMark then lexer.takeEntry .mappingStart .key (!lexer.inFlow)
  else if c = ':' && isMark then lexer.takeColon
  else if c = '*' then lexer.takeName .alias
  else if c = '&' then lexer.takeName .anchor
  else if c = '!' then lexer.takeTag
  else if c = '|' && !lexer.inFlow then lexer.takeBlock false
  else if c = '>' && !lexer.inFlow then lexer.takeBlock true
  else if c = '\'' || c = '"' then lexer.takeScalar (quotedScalar c)
  else if Plain.canStart lexer.inFlow cursor.rest then
    lexer.takeScalar fun cursor => .ok (plainScalar lexer.inFlow (lexer.indent + 1) cursor)
  else .error .malformed

/-- The tokens of the rest of a text after those so far; the fuel bounds the number of steps. -/
def run : (fuel : Nat) → Lexer → List Token
  | 0, lexer => lexer.tokens.reverse
  | fuel + 1, lexer =>
      let failed := fun fault => (Token.failed fault :: lexer.tokens).reverse
      match lexer.advance with
      | .error fault => failed fault
      | .ok reached =>
          match reached.cursor.rest with
          | [] =>
              match reached.closeAll.dropKey with
              | .error fault => failed fault
              | .ok ended => (Token.finished :: ended.tokens).reverse
          | c :: _ =>
              match reached.takeToken c with
              | .error fault => failed fault
              | .ok next => run fuel next

end Lexer

/-- The tokens of a text. Every step takes a character at least, so its length is fuel enough. -/
def tokens (text : Text) : List Token :=
  Lexer.run (text.length + 1) { cursor := { rest := text } }

end Yaml

end IdlFormat
