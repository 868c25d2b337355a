import IdlFormat.Setting.Value
import IdlFormat.Yaml.Binary
import IdlFormat.Yaml.Parser

/-!
# Values of documents

The nodes of a document are made into values level by level, so of several faults the one at the
least depth is found, and of those at the same depth the first. Collections cannot be keys.
-/

namespace IdlFormat

namespace Yaml

open Setting

/-- Reads a truth value. -/
def truth (text : Text) : Result Value :=
  match Tag.truths.find? fun (word, _) => word = text.lower with
  | some (_, meaning) => .ok (.bool meaning)
  | none => .error (.badTruth text.lower)

/-- Reads a date. -/
def date (text : Text) : Result Value :=
  match Date.ofText? (Tag.dropFinalBreak text) with
  | none => .error .noDate
  | some date =>
      match date.fault? with
      | some fault => .error (.badDate fault)
      | none => .ok .other

/-- Reads binary data, which is used as a text. -/
def binary (text : Text) : Result Value :=
  match Binary.decode? text with
  | none => .error .malformed
  | some bytes =>
      match Utf8.decode bytes with
      | .ok text => .ok (.text text)
      | .error _ => .ok .brokenText

/-- The value of a scalar. -/
def scalarValue (tag : Tag) (text : Text) (broken : Bool) : Result Value :=
  match tag with
  | .null => .ok .null
  | .bool => truth text
  | .int => .int <$> Number.integer text
  | .float => .float <$> Number.float text
  | .date => date text
  | .binary => binary text
  | .text => .ok (if broken then .brokenText else .text text)
  | _ => .error .malformed

/-- A fault and its depth. -/
abbrev Finding := Nat × Fault

namespace Finding

/-- Of two findings the one that is met first: the one at the least depth, or else the former. -/
def first : Option Finding → Option Finding → Option Finding
  | none, later => later
  | earlier, none => earlier
  | some earlier, some later => some (if later.1 < earlier.1 then later else earlier)

end Finding

namespace Node

/-- Whether a node is a collection. -/
def isCollection : Node → Bool
  | .scalar .. => false
  | _ => true

/-- Whether a node is a mapping with one entry. -/
def isPair (node : Node) : Bool :=
  node.entries?.any (·.length = 1)

mutual

/-- The first fault of a node at a depth. -/
def finding? (depth : Nat) : Node → Option Finding
  | .scalar tag text broken =>
      match scalarValue tag text broken with
      | .ok _ => none
      | .error fault => some (depth, fault)
  | .sequence tag items =>
      if tag = .sequence || (tag = .pairs && items.all isPair) then itemsFinding? (depth + 1) items
      else some (depth, .malformed)
  | .mapping tag entries =>
      if tag = .mapping || tag = .set then entriesFinding? (depth + 1) entries
      else some (depth, .malformed)

/-- The first fault of items. -/
def itemsFinding? (depth : Nat) : List Node → Option Finding
  | [] => none
  | item :: items => Finding.first (finding? depth item) (itemsFinding? depth items)

/-- The first fault of entries. -/
def entriesFinding? (depth : Nat) : List (Node × Node) → Option Finding
  | [] => none
  | (key, value) :: entries =>
      let ofKey := if isCollection key then some (depth, Fault.malformed) else finding? depth key
      let ofValue := finding? depth value
      Finding.first ofKey (Finding.first ofValue (entriesFinding? depth entries))

end

/-- The text that a key is. -/
def keyText? : Node → Option Text
  | .scalar .text text _ => some text
  | _ => none

mutual

/-- The value of a node without faults. Only entries whose keys are texts become fields. -/
def value : Node → Value
  | .scalar tag text broken => (scalarValue tag text broken).toOption.getD .other
  | .sequence _ items => .list (values items)
  | .mapping tag entries =>
      if tag = .set then .list (keyValues entries) else .record (Table.ofPairs (fields entries))

/-- The values of items. -/
def values : List Node → List Value
  | [] => []
  | item :: items => value item :: values items

/-- The keys of entries. -/
def keyValues : List (Node × Node) → List Value
  | [] => []
  | (key, _) :: entries => value key :: keyValues entries

/-- The fields that entries give, in order. -/
def fields : List (Node × Node) → List (Text × Value)
  | [] => []
  | (key, node) :: entries =>
      match keyText? key with
      | some name => (name, value node) :: fields entries
      | none => fields entries

end

/-- Whether all keys of a mapping are texts. -/
def hasTextKeys (node : Node) : Bool :=
  node.entries?.all fun entries => entries.all fun (key, _) => (keyText? key).isSome

end Node

/-- The document in a text, if all its nodes have values. -/
def load (text : Text) : Result Node := do
  let document ← parse text
  match document.finding? 0 with
  | some (_, fault) => throw fault
  | none => return document

end Yaml

end IdlFormat
