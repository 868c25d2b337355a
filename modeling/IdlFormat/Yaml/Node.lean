import IdlFormat.Yaml.Tag

/-!
# Nodes

A document is a tree of nodes. A mapping can take over the entries of others by a merge key; they
stand before its own entries, so that its own ones win.
-/

namespace IdlFormat

namespace Yaml

/-- A node of a document. -/
inductive Node where
  /-- A scalar; `broken` says that half a surrogate pair in it is replaced. -/
  | scalar (tag : Tag) (text : Text) (broken : Bool)
  /-- A sequence. -/
  | sequence (tag : Tag) (items : List Node)
  /-- A mapping. -/
  | mapping (tag : Tag) (entries : List (Node × Node))
deriving Repr

namespace Node

/-- The node that stands where nothing is written. -/
def empty : Node :=
  .scalar .null [] false

/-- What a node stands for. -/
def tag : Node → Tag
  | .scalar tag .. => tag
  | .sequence tag _ => tag
  | .mapping tag _ => tag

/-- The entries of a mapping. -/
def entries? : Node → Option (List (Node × Node))
  | .mapping _ entries => some entries
  | _ => none

/-- The entries that the value of a merge key gives: those of a mapping, or of several ones, of
which the first wins. -/
def merged? : Node → Option (List (Node × Node))
  | .mapping _ entries => some entries
  | .sequence _ items => (items.mapM entries?).map fun parts => parts.reverse.flatten
  | .scalar .. => none

/-- A key that stands for itself. -/
def ordinaryKey : Node → Node
  | .scalar .standIn text broken => .scalar .text text broken
  | key => key

/-- An entry that makes a mapping unusable. -/
def badEntry : Node × Node :=
  (.scalar .unknown [] false, empty)

/-- The entries of a mapping after merging. -/
def merge (entries : List (Node × Node)) : List (Node × Node) :=
  let (merging, own) := entries.partition fun (key, _) => key.tag = .merge
  match merging.mapM fun (_, value) => merged? value with
  | some taken => taken.flatten ++ own.map fun (key, value) => (ordinaryKey key, value)
  | none => [badEntry]

/-- Whether a tag belongs to collections. -/
def isCollectionTag (tag : Tag) : Bool :=
  tag ∈ [.sequence, .mapping, .set, .pairs]

/-- The mapping with a tag and entries as they are written. With the tag of a scalar it is the
scalar that stands in for it, if it has one. -/
def ofEntries (tag : Tag) (entries : List (Node × Node)) : Node :=
  let standIn := entries.find? fun (key, _) => key.tag = .standIn
  match isCollectionTag tag, standIn with
  | false, some (_, .scalar _ text broken) => .scalar tag text broken
  | _, _ => .mapping tag (merge entries)

end Node

end Yaml

end IdlFormat
