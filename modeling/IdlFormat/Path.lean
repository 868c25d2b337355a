import IdlFormat.Text.Basic

/-!
# Paths

A path is an anchor and a list of components. Empty components and `.` do not change where a path
leads and are dropped; `..` is kept.
-/

namespace IdlFormat

/-- Where a path starts. -/
inductive Path.Anchor where
  /-- At the working directory. -/
  | relative
  /-- At the root. -/
  | root
  /-- At the root, written with two slashes, which are told apart from one. -/
  | doubleRoot
deriving DecidableEq, Repr

/-- A path. -/
structure Path where
  /-- Where the path starts. -/
  anchor : Path.Anchor
  /-- The components, none of them empty or `.`. -/
  parts : List Text
deriving DecidableEq, Repr

namespace Path

/-- The text of an anchor. -/
def Anchor.text : Anchor → Text
  | .relative => []
  | .root => ['/']
  | .doubleRoot => ['/', '/']

/-- The anchor that a number of leading slashes writes. -/
def Anchor.ofSlashes : Nat → Anchor
  | 0 => .relative
  | 2 => .doubleRoot
  | _ => .root

/-- Whether a component moves along the path. -/
def isStep (part : Text) : Bool :=
  !(part.isEmpty || part = ['.'])

/-- Reads a path. -/
def ofText (text : Text) : Path where
  anchor := Anchor.ofSlashes (text.takeWhile (· = '/')).length
  parts := (Text.splitOn '/' text).filter isStep

/-- Writes a path; the path without anchor and components is `.`. -/
def toText (path : Path) : Text :=
  match path.anchor, path.parts with
  | .relative, [] => ['.']
  | anchor, parts => anchor.text ++ Text.join ['/'] parts

/-- The components of a path, the anchor among them if there is one. -/
def components (path : Path) : List Text :=
  match path.anchor with
  | .relative => path.parts
  | anchor => anchor.text :: path.parts

/-- The path of something in a directory. -/
def child (path : Path) (name : Text) : Path :=
  { path with parts := path.parts ++ [name] }

/-- The path without its last component. -/
def parent (path : Path) : Path :=
  { path with parts := path.parts.dropLast }

/-- The last component. -/
def name (path : Path) : Text :=
  path.parts.getLast?.getD []

/-- The end of the last component from its last dot on, unless that dot is its first or last
character. -/
def suffix (path : Path) : Text :=
  let ending := (path.name.reverse.takeWhile (· != '.')).reverse
  let stem := path.name.take (path.name.length - ending.length - 1)
  if ending.isEmpty || stem.isEmpty then [] else '.' :: ending

/-- The order of lists of components: the earlier difference decides. -/
def leParts : List Text → List Text → Bool
  | [], _ => true
  | _ :: _, [] => false
  | first :: left, second :: right =>
      if first = second then leParts left right else Text.le first second

/-- The order of paths by their components. -/
def le (left right : Path) : Bool :=
  leParts left.components right.components

end Path

end IdlFormat
