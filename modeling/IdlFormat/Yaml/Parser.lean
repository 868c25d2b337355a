import IdlFormat.Table
import IdlFormat.Yaml.Lexer
import IdlFormat.Yaml.Node

/-!
# Building nodes from tokens

Each part of a document is known by its first token. The parser keeps the nodes that have names, and
what the handles of tags stand for. A document is alone in its file, and its nodes are nested
`Parser.depthLimit` deep at most.
-/

namespace IdlFormat

namespace Yaml

/-- What is still to be read, and what the names in it mean. -/
structure Parser.State where
  /-- The tokens that are still to be read. -/
  tokens : List Token
  /-- The nodes that have names. A collection that is still open is empty. -/
  anchors : Table Node := []
  /-- What the handles of tags stand for. -/
  handles : Table Text := []

/-- A reader of tokens. -/
abbrev Parser := StateT Parser.State Result

namespace Parser

/-- The token that comes next. That the text cannot be read is found when it is asked for. -/
def peek : Parser Token := do
  match (← get).tokens with
  | [] => return .finished
  | .failed fault :: _ => throw fault
  | token :: _ => return token

/-- Passes over the token that comes next. -/
def drop : Parser Unit :=
  modify fun state => { state with tokens := state.tokens.drop 1 }

/-- Passes over the token that comes next if it is the given one, and tells whether it was. -/
def accept (token : Token) : Parser Bool := do
  if (← peek) = token then
    drop
    return true
  else return false

/-- Passes over the given token, which must come next. -/
def expect (token : Token) : Parser Unit := do
  if !(← accept token) then throw .malformed

/-- The number of tokens that are still to be read. -/
def remaining : Parser Nat := do
  return (← get).tokens.length

/-- A node, or an empty one if a token comes next that shows that there is none. -/
def unlessAt (stops : List Token) (node : Parser Node) : Parser Node := do
  if (← peek) ∈ stops then return .empty else node

/-- The places of nodes, by what may stand there. -/
inductive Place where
  /-- No block collections. -/
  | flow
  /-- Block collections. -/
  | block
  /-- Block collections, and items that are not indented. -/
  | entry
deriving DecidableEq, Repr

/-- What can be read at each place. -/
abbrev Reader := Place → Parser Node

/-- The items of a block sequence; the fuel bounds their number. -/
def blockItems (node : Reader) : (fuel : Nat) → Parser (List Node)
  | 0 => throw .malformed
  | fuel + 1 => do
      if ← accept .dash then
        let item ← unlessAt [.dash, .blockEnd] (node .block)
        return item :: (← blockItems node fuel)
      else
        expect .blockEnd
        return []

/-- The items of a sequence that is not indented; the fuel bounds their number. -/
def flatItems (node : Reader) : (fuel : Nat) → Parser (List Node)
  | 0 => throw .malformed
  | fuel + 1 => do
      if ← accept .dash then
        let item ← unlessAt [.dash, .key, .colon, .blockEnd] (node .block)
        return item :: (← flatItems node fuel)
      else return []

/-- A value, if there is a colon before it. -/
def value (stops : List Token) (node : Parser Node) : Parser Node := do
  if ← accept .colon then unlessAt stops node else return .empty

/-- The entries of a block mapping; the fuel bounds their number. -/
def blockEntries (node : Reader) : (fuel : Nat) → Parser (List (Node × Node))
  | 0 => throw .malformed
  | fuel + 1 => do
      let stops := [.key, .colon, .blockEnd]
      if ← accept .key then
        let key ← unlessAt stops (node .entry)
        let value ← value stops (node .entry)
        return (key, value) :: (← blockEntries node fuel)
      else
        expect .blockEnd
        return []

/-- A key and its value in a flow collection, after the mark of the key. -/
def flowEntry (node : Reader) (close : Token) : Parser (Node × Node) := do
  let key ← unlessAt [.colon, .comma, close] (node .flow)
  let value ← value [.comma, close] (node .flow)
  return (key, value)

/-- Whether a flow collection goes on: the comma before each part but the first, and the closing
token. -/
def continues (first : Bool) (close : Token) : Parser Bool := do
  if ← accept close then return false
  if !first then
    expect .comma
    if ← accept close then return false
  return true

/-- The items of a flow sequence; the fuel bounds their number. -/
def flowItems (node : Reader) : (fuel : Nat) → (first : Bool) → Parser (List Node)
  | 0, _ => throw .malformed
  | fuel + 1, first => do
      if ← continues first .bracketClose then
        let item ←
          if ← accept .key then
            (fun entry => Node.ofEntries .mapping [entry]) <$> flowEntry node .bracketClose
          else node .flow
        return item :: (← flowItems node fuel false)
      else return []

/-- The entries of a flow mapping; the fuel bounds their number. -/
def flowEntries (node : Reader) : (fuel : Nat) → (first : Bool) → Parser (List (Node × Node))
  | 0, _ => throw .malformed
  | fuel + 1, first => do
      if ← continues first .braceClose then
        let entry ←
          if ← accept .key then flowEntry node .braceClose
          else (fun key => (key, .empty)) <$> node .flow
        return entry :: (← flowEntries node fuel false)
      else return []

/-- The anchor and the tag of a node. -/
structure Properties where
  /-- The name of the node. -/
  anchor : Option Text := none
  /-- The tag; a node whose tag is an exclamation mark counts as one without a tag. -/
  tag : Option Text := none
deriving DecidableEq, Repr

/-- The tag that a name stands for. -/
def fullName (name : TagName) : Parser Text := do
  match name.handle with
  | none => return name.suffix
  | some handle =>
      match Table.get? handle (← get).handles with
      | some opening => return opening ++ name.suffix
      | none => throw .malformed

/-- The name of a node that comes next, if there is one. -/
def anchor? : Parser (Option Text) := do
  match ← peek with
  | .anchor name =>
      drop
      return some name
  | _ => return none

/-- The tag that comes next, if there is one. -/
def tag? : Parser (Option TagName) := do
  match ← peek with
  | .tag name =>
      drop
      return some name
  | _ => return none

/-- The anchor and the tag that come next, in any order. A name may be given once only. -/
def properties : Parser Properties := do
  let early ← anchor?
  let name ← tag?
  let anchor ← if early.isNone && name.isSome then anchor? else pure early
  let tag ← name.mapM fullName
  let anchors := (← get).anchors
  if anchor.any fun name => (Table.get? name anchors).isSome then throw .malformed
  return ⟨anchor, tag⟩

/-- Gives a node its name. -/
def remember (anchor : Option Text) (node : Node) : Parser Node := do
  if let some name := anchor then
    modify fun state => { state with anchors := Table.put name node state.anchors }
  return node

/-- The tag of a node; `implied` is the one that it has if none is written. -/
def Properties.tagOr (properties : Properties) (implied : Tag) : Tag :=
  match properties.tag with
  | none => implied
  | some name => if name = ['!'] then implied else Tag.ofName name

/-- The tag of a scalar. -/
def Properties.scalarTag (properties : Properties) (text : Text) (form : Scalar.Form) : Tag :=
  if properties.tag = none && form != .plain then .text else properties.tagOr (Tag.ofScalar text)

/-- A sequence whose items are still to be read. -/
def sequence (properties : Properties) (items : Parser (List Node)) : Parser Node := do
  let tag := properties.tagOr .sequence
  let _ ← remember properties.anchor (.sequence tag [])
  remember properties.anchor (.sequence tag (← items))

/-- A mapping whose entries are still to be read. -/
def mapping (properties : Properties) (entries : Parser (List (Node × Node))) : Parser Node := do
  let tag := properties.tagOr .mapping
  let _ ← remember properties.anchor (.mapping tag [])
  remember properties.anchor (.ofEntries tag (← entries))

/-- The node after its anchor and tag; `node` reads the nodes in it. -/
def content (node : Reader) (place : Place) (properties : Properties) : Parser Node := do
  let fuel ← remaining
  let token ← peek
  match token, place with
  | .dash, .entry => sequence properties (flatItems node fuel)
  | .scalar text form, _ =>
      drop
      remember properties.anchor (.scalar (properties.scalarTag text form) text (form = .broken))
  | .bracketOpen, _ =>
      drop
      sequence properties (flowItems node fuel true)
  | .braceOpen, _ =>
      drop
      mapping properties (flowEntries node fuel true)
  | _, _ =>
      if token = .sequenceStart && place != .flow then
        drop
        sequence properties (blockItems node fuel)
      else if token = .mappingStart && place != .flow then
        drop
        mapping properties (blockEntries node fuel)
      else if properties = {} then throw .malformed
      else remember properties.anchor (.scalar (properties.tagOr .null) [] false)

/-- The most nodes that may stand inside each other. -/
def depthLimit : Nat := 488

/-- The node that comes next, of at most the given depth. -/
def node : (depth : Nat) → Reader
  | 0, _ => throw .tooDeep
  | depth + 1, place => do
      match ← peek with
      | .alias name =>
          drop
          match Table.get? name (← get).anchors with
          | some node => return node
          | none => throw .malformed
      | _ => content (node depth) place (← properties)

/-- The handles that need no directive. -/
def standardHandles : Table Text :=
  [(['!'], ['!']), (['!', '!'], Tag.space)]

/-- Reads the directives: whether the version was given, and the handles. -/
def directives : (fuel : Nat) → (versioned : Bool) → Table Text → Parser (Table Text)
  | 0, _, handles => return handles
  | fuel + 1, versioned, handles => do
      match ← peek with
      | .directive (.version major) =>
          drop
          if versioned || major != 1 then throw .malformed
          directives fuel true handles
      | .directive (.handle name expansion) =>
          drop
          if (Table.get? name handles).isSome then throw .malformed
          directives fuel versioned (Table.put name expansion handles)
      | .directive .other =>
          drop
          directives fuel versioned handles
      | _ => return handles

/-- Makes handles known, besides the standard ones. -/
def setHandles (handles : Table Text) : Parser Unit :=
  modify fun state => { state with handles := handles ++ standardHandles }

/-- Passes over the marks that end a document. -/
def dropEnds : (fuel : Nat) → Parser Unit
  | 0 => return ()
  | fuel + 1 => do
      if ← accept .documentEnd then dropEnds fuel

/-- The content of a document with a mark that starts it, which may be empty. -/
def markedContent (content : Parser Node) : Parser Node := do
  match ← peek with
  | .directive _ | .documentStart | .documentEnd | .finished => return .empty
  | _ => content

/-- The only document. A file without one counts as an empty document. -/
def document : Parser Node := do
  let fuel ← remaining
  let content := node depthLimit .block
  let root ←
    match ← peek with
    | .finished => pure .empty
    | .directive _ | .documentStart => do
        setHandles (← directives fuel false [])
        expect .documentStart
        markedContent content
    | _ => do
        setHandles []
        content
  dropEnds fuel
  expect .finished
  return root

end Parser

/-- The characters that a document may have. -/
def isAllowed (c : Char) : Bool :=
  Text.inRanges c.toNat
    [(0x09, 0x0A), (0x0D, 0x0D), (0x20, 0x7E), (0x85, 0x85), (0xA0, 0xFFFD), (0x10000, 0x10FFFF)]

/-- The document in a text. -/
def parse (text : Text) : Result Node :=
  if text.all isAllowed then (·.1) <$> Parser.document.run { tokens := tokens text }
  else .error .malformed

end Yaml

end IdlFormat
