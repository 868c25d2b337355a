import IdlFormat.Path
import IdlFormat.Text.Utf8

/-!
# File trees

A file tree holds files by their place. A place is a directory if something lies below it or if it
is listed as a folder, which keeps empty directories. There are no links, so a place has one name
from the root, and `..` always leads to the directory above.
-/

namespace IdlFormat

/-- A place in a file tree: the names that lead to it from the root. -/
abbrev Place := List Text

/-- A file. -/
structure File where
  /-- What the file holds. -/
  content : Bytes
  /-- When the file was last written, in seconds. -/
  modified : Float
deriving Repr

/-- Why the tree cannot serve a request. -/
inductive Obstacle where
  /-- There is nothing at the place. -/
  | missing
  /-- Access is not allowed. -/
  | denied
  /-- There is something at the place already. -/
  | taken
  /-- The path leads through something that is no directory. -/
  | notDirectory
  /-- The place is a directory. -/
  | isDirectory
  /-- The path or one of its components is too long. -/
  | tooLong
  /-- The path has a null character, so it is none. -/
  | noPath
deriving DecidableEq, Repr

namespace Obstacle

/-- The number of an obstacle; what is no path is refused before it would get one. -/
def number? : Obstacle → Option Nat
  | .missing => some 2
  | .denied => some 13
  | .taken => some 17
  | .notDirectory => some 20
  | .isDirectory => some 21
  | .tooLong => some 36
  | .noPath => none

/-- The sentence on an obstacle. -/
def sentence : Obstacle → String
  | .missing => "No such file or directory"
  | .denied => "Permission denied"
  | .taken => "File exists"
  | .notDirectory => "Not a directory"
  | .isDirectory => "Is a directory"
  | .tooLong => "File name too long"
  | .noPath => "embedded null byte"

/-- The report on an obstacle at a path. -/
def message (obstacle : Obstacle) (path : Text) : Text :=
  match obstacle.number? with
  | some number =>
      "[Errno ".toList ++ Text.ofNat number ++ "] ".toList ++ obstacle.sentence.toList ++
        [':', ' '] ++ path.quoted
  | none => obstacle.sentence.toList

end Obstacle

/-- Files and folders, seen from a working directory. -/
structure FileTree where
  /-- The files by their places. -/
  files : List (Place × File) := []
  /-- Places that are directories even if nothing lies below them. -/
  folders : List Place := []
  /-- The working directory. -/
  current : Place := []
deriving Repr

namespace FileTree

/-- The file at a place. -/
def file? (tree : FileTree) (place : Place) : Option File :=
  tree.files.lookup place

/-- Whether a place lies strictly below another. -/
def isBelow (above place : Place) : Bool :=
  above.isPrefixOf place && above != place

/-- Whether a place is a directory. -/
def isDirectory (tree : FileTree) (place : Place) : Bool :=
  place.isEmpty || place.isPrefixOf tree.current || tree.folders.any place.isPrefixOf ||
    tree.files.any fun (location, _) => isBelow place location

/-- The most bytes of a component. -/
def nameLimit : Nat := 255

/-- The most bytes of a path. -/
def pathLimit : Nat := 4095

/-- The place that components lead to from a directory. Every step needs a directory to start from,
also one that stays where it is. -/
def follow (tree : FileTree) (place : Place) : List Text → Except Obstacle Place
  | [] => .ok place
  | part :: parts =>
      if tree.isDirectory place then
        if part.isEmpty || part = ['.'] then tree.follow place parts
        else if part = ['.', '.'] then tree.follow place.dropLast parts
        else if (Utf8.encode part).length > nameLimit then .error .tooLong
        else tree.follow (place ++ [part]) parts
      else if (tree.file? place).isSome then .error .notDirectory
      else .error .missing

/-- The directory that a path starts at. -/
def start (tree : FileTree) (path : Path) : Place :=
  match path.anchor with
  | .relative => tree.current
  | _ => []

/-- What is wrong with a path as a text. -/
def fault? (path : Text) : Option Obstacle :=
  if '\x00' ∈ path then some .noPath
  else if (Utf8.encode path).length > pathLimit then some .tooLong
  else if path.isEmpty then some .missing
  else none

/-- The place that a path leads to as it is written, with its empty components; there may be nothing
there yet. -/
def locateText (tree : FileTree) (path : Text) : Except Obstacle Place :=
  match fault? path with
  | some obstacle => .error obstacle
  | none => tree.follow (tree.start (Path.ofText path)) (Text.splitOn '/' path)

/-- The place that a path leads to. -/
def locate (tree : FileTree) (path : Path) : Except Obstacle Place :=
  tree.locateText path.toText

/-- The place that a path names, whether or not its steps can be taken. -/
def resolve (tree : FileTree) (path : Path) : Place :=
  path.parts.foldl
    (fun place part => if part = ['.', '.'] then place.dropLast else place ++ [part])
    (tree.start path)

/-- What there is at a place: a file, or `none` for a directory. -/
def entry (tree : FileTree) (place : Place) : Except Obstacle (Option File) :=
  if tree.isDirectory place then .ok none
  else match tree.file? place with
    | some file => .ok (some file)
    | none => .error .missing

/-- Whether there is anything at a path. A path that is too long cannot be looked up. -/
def hasEntry (tree : FileTree) (path : Path) : Except Obstacle Bool :=
  match (tree.locate path).bind tree.entry with
  | .ok _ => .ok true
  | .error .tooLong => .error .tooLong
  | .error _ => .ok false

/-- Whether there is a directory at a path. -/
def hasDirectory (tree : FileTree) (path : Path) : Bool :=
  match tree.locate path with
  | .ok place => tree.isDirectory place
  | .error _ => false

/-- The file at a place, which must be one. -/
def openFile (tree : FileTree) (place : Place) : Except Obstacle File := do
  match ← tree.entry place with
  | some file => return file
  | none => throw .isDirectory

/-- The content of the file at a path. -/
def read (tree : FileTree) (path : Path) : Except Obstacle Bytes := do
  return (← tree.openFile (← tree.locate path)).content

/-- The content of the file at a path as it is written. -/
def readText (tree : FileTree) (path : Text) : Except Obstacle Bytes := do
  return (← tree.openFile (← tree.locateText path)).content

/-- Puts a file at a place. -/
def putFile (tree : FileTree) (place : Place) (file : File) : FileTree :=
  let others := tree.files.filter fun (location, _) => location != place
  { tree with files := others ++ [(place, file)] }

/-- Writes a file at a path, at a time: its new content is made from the old one, if there is
any. -/
def update (tree : FileTree) (now : Float) (path : Path) (change : Option Bytes → Bytes) :
    Except Obstacle FileTree := do
  let place ← tree.locate path
  if tree.isDirectory place then throw .isDirectory
  let content := change ((tree.file? place).map File.content)
  return tree.putFile place ⟨content, now⟩

/-- Writes a file at a path. -/
def write (tree : FileTree) (now : Float) (path : Path) (content : Bytes) :
    Except Obstacle FileTree :=
  tree.update now path fun _ => content

/-- Writes at the end of the file at a path. -/
def append (tree : FileTree) (now : Float) (path : Path) (content : Bytes) :
    Except Obstacle FileTree :=
  tree.update now path fun before => before.getD [] ++ content

/-- Removes the file at a place; its directory stays. -/
def remove (tree : FileTree) (place : Place) : FileTree :=
  { tree with
    files := tree.files.filter fun (location, _) => location != place
    folders := tree.folders ++ [place.dropLast] }

/-- Makes one folder, whose directory must be there. -/
def makeFolder (tree : FileTree) (path : Path) : Except Obstacle FileTree := do
  let place ← tree.locate path
  if tree.isDirectory place || (tree.file? place).isSome then throw .taken
  return { tree with folders := tree.folders ++ [place] }

/-- Makes one folder, unless the directory is there already. -/
def ensureFolder (tree : FileTree) (path : Path) : Except Obstacle FileTree :=
  match tree.makeFolder path with
  | .ok grown => .ok grown
  | .error obstacle => if tree.hasDirectory path then .ok tree else .error obstacle

/-- Makes a folder and the folders that lead to it, given its components, last one first. -/
def ensureFolders (tree : FileTree) (anchor : Path.Anchor) : List Text → Except Obstacle FileTree
  | [] => .ok tree
  | part :: above =>
      let path : Path := ⟨anchor, (part :: above).reverse⟩
      match tree.makeFolder path with
      | .error .missing => do (← tree.ensureFolders anchor above).ensureFolder path
      | _ => tree.ensureFolder path

/-- Makes the directory that a file at a path lies in, and the folders that lead to it. -/
def ensureParent (tree : FileTree) (path : Path) : Except Obstacle FileTree :=
  tree.ensureFolders path.anchor path.parent.parts.reverse

/-- The names of the files directly in a directory. -/
def fileNames (tree : FileTree) (place : Place) : List Text :=
  tree.files.filterMap fun (location, _) =>
    if place.isPrefixOf location && location.length = place.length + 1 then location.getLast?
    else none

/-- The places that show which directories there are: all folders, and the directories of all
files. -/
def shownFolders (tree : FileTree) : List Place :=
  tree.folders ++ tree.current :: tree.files.map fun (location, _) => location.dropLast

/-- The names of the folders directly in a directory. -/
def folderNames (tree : FileTree) (place : Place) : List Text :=
  (tree.shownFolders.filterMap fun folder =>
    if place.isPrefixOf folder then (folder.drop place.length).head? else none).eraseDups

/-- A number of levels that no place in the tree exceeds. -/
def depth (tree : FileTree) : Nat :=
  (tree.shownFolders.map List.length).foldl max 0 + 1

end FileTree

end IdlFormat
