import IdlFormat.Json.Token

/-!
# Reading JSON

The reader is a machine that takes one token at a time. Its stack holds the arrays and objects that
are still open, innermost first; there may be `Json.depthLimit` of them at most.
-/

namespace IdlFormat

namespace Json

/-- Too many arrays and objects are open. -/
structure TooDeep where
  /-- Whether the one too many is an object. -/
  isObject : Bool
deriving DecidableEq, Repr

/-- The report on too many arrays and objects. -/
def TooDeep.message (excess : TooDeep) : Text :=
  "maximum recursion depth exceeded while decoding a JSON ".toList ++
    (if excess.isObject then "object".toList else "array".toList) ++ " from a unicode string".toList

/-- Why a text is not read. -/
inductive Fault where
  /-- The text is no JSON. -/
  | malformed
  /-- A number has too many digits. -/
  | tooLong (excess : Numeral.TooLong)
  /-- Too many arrays and objects are open. -/
  | tooDeep (excess : TooDeep)
deriving DecidableEq, Repr

/-- An array or object that is still open. -/
inductive Frame where
  /-- An array with its items so far, last first. -/
  | array (items : List Json)
  /-- An object with its fields so far, and the name whose value comes next. -/
  | object (fields : List (Text × Json)) (name : Text)

/-- What the reader expects next. -/
inductive Expectation where
  /-- A value. -/
  | value
  /-- A value, or the end of an empty array. -/
  | valueOrEnd
  /-- A name. -/
  | name (fields : List (Text × Json))
  /-- A name, or the end of an empty object. -/
  | nameOrEnd
  /-- The colon after a name. -/
  | colon (fields : List (Text × Json)) (name : Text)
  /-- What may follow the value that was just read. -/
  | done (value : Json)

/-- The reader between two tokens. -/
structure Reader where
  /-- What is still open, innermost first. -/
  stack : List Frame
  /-- What comes next. -/
  expects : Expectation

/-- Opens an array or object, unless too many are open. -/
def Reader.descend (stack : List Frame) (isObject : Bool) (expects : Expectation) :
    Except Fault Reader :=
  if stack.length < depthLimit then .ok ⟨stack, expects⟩ else .error (.tooDeep ⟨isObject⟩)

/-- Takes a token where a value is expected. -/
def Reader.takeValue (stack : List Frame) : Token → Except Fault Reader
  | .scalar value => .ok ⟨stack, .done value⟩
  | .string value => .ok ⟨stack, .done (.string value)⟩
  | .arrayOpen => descend stack false .valueOrEnd
  | .objectOpen => descend stack true .nameOrEnd
  | .tooLong excess => .error (.tooLong excess)
  | _ => .error .malformed

/-- Takes a token after a value. -/
def Reader.takeAfter (value : Json) : List Frame → Token → Except Fault Reader
  | .array items :: stack, .comma => .ok ⟨.array (value :: items) :: stack, .value⟩
  | .array items :: stack, .arrayClose => .ok ⟨stack, .done (.array (value :: items).reverse)⟩
  | .object fields name :: stack, .comma => .ok ⟨stack, .name (Table.put name value fields)⟩
  | .object fields name :: stack, .objectClose =>
      .ok ⟨stack, .done (.object (Table.put name value fields))⟩
  | _, _ => .error .malformed

/-- Takes a token. -/
def Reader.take (reader : Reader) (token : Token) : Except Fault Reader :=
  match reader.expects, token with
  | .value, token => takeValue reader.stack token
  | .valueOrEnd, .arrayClose => .ok ⟨reader.stack, .done (.array [])⟩
  | .valueOrEnd, token => takeValue (.array [] :: reader.stack) token
  | .nameOrEnd, .objectClose => .ok ⟨reader.stack, .done (.object [])⟩
  | .nameOrEnd, .string name => .ok ⟨reader.stack, .colon [] name⟩
  | .name fields, .string name => .ok ⟨reader.stack, .colon fields name⟩
  | .colon fields name, .colon => .ok ⟨.object fields name :: reader.stack, .value⟩
  | .done value, token => takeAfter value reader.stack token
  | _, _ => .error .malformed

/-- Reads a text that holds one value. -/
def parse (text : Text) : Except Fault Json := do
  let reader ← (Token.tokens text).foldlM Reader.take ⟨[], .value⟩
  match reader.expects, reader.stack with
  | .done value, [] => return value
  | _, _ => .error .malformed

end Json

end IdlFormat
