import IdlFormat.Command.Basic
import Std.Time.DateTime.Timestamp

/-!
# The executable

Everything below the working directory and below the paths among the arguments is taken into a file
tree, the program is run on it, and what it changed is written back.
-/

namespace IdlFormat

namespace Main

/-- The place that an absolute path leads to. -/
def placeOf (path : String) : Place :=
  (Path.ofText path.toList).parts

/-- The absolute path of a place. -/
def pathOf (place : Place) : String :=
  String.ofList (Path.toText ⟨.root, place⟩)

/-- The seconds of a time. -/
def seconds (time : IO.FS.SystemTime) : Float :=
  Float.ofInt time.sec + Float.ofNat time.nsec.toNat / 1000000000.0

/-- Takes a file into a tree; one that cannot be opened is left out. -/
def addFile (tree : FileTree) (path : String) : IO FileTree := do
  try
    let content ← IO.FS.readBinFile path
    let details ← (← IO.FS.realPath path).metadata
    return tree.putFile (placeOf path) ⟨content.toList, seconds details.modified⟩
  catch _ => return tree

/-- Takes everything at and below a path into a tree. -/
def addPath (tree : FileTree) (path : String) : IO FileTree := do
  let root ← IO.FS.realPath path
  if ← root.isDir then
    let mut grown := { tree with folders := placeOf root.toString :: tree.folders }
    for entry in ← root.walkDir do
      if ← entry.isDir then
        grown := { grown with folders := placeOf entry.toString :: grown.folders }
      else
        grown ← addFile grown entry.toString
    return grown
  else if ← root.pathExists then addFile tree root.toString
  else return tree

/-- The tree that a program with some arguments works on. -/
def readTree (arguments : List String) : IO FileTree := do
  let current ← IO.FS.realPath "."
  let empty : FileTree := { current := placeOf current.toString }
  let mut tree ← addPath empty "."
  for argument in arguments do
    try
      tree ← addPath tree argument
    catch _ => pure ()
  return tree

/-- Writes back the files in which a tree differs from an earlier one. -/
def writeTree (before after : FileTree) : IO Unit := do
  for (place, file) in after.files do
    if (before.file? place).map File.content != some file.content then
      IO.FS.createDirAll (pathOf place.dropLast)
      IO.FS.writeBinFile (pathOf place) ⟨file.content.toArray⟩
  for (place, _) in before.files do
    if (after.file? place).isNone then
      IO.FS.removeFile (pathOf place)

/-- The variables of the environment that a configuration may depend on. -/
def readEnvironment : IO Environment := do
  let names := ["MIDLFMT_INDENT_WIDTH", "MIDLFMT_ATTRIBUTE_INLINE_LIMIT", "MIDLFMT_TELEMETRY_PATH",
    "MIDLFMT_TELEMETRY"]
  names.filterMapM fun name => do
    return (← IO.getEnv name).map fun value => (name.toList, value.toList)

/-- The number of names of runs. -/
def runNames : Nat := Nat.pow 16 12

/-- Runs the program with some arguments. -/
def run (arguments : List String) : IO UInt32 := do
  let tree ← readTree arguments
  let time ← Std.Time.Timestamp.now
  let input ← if "-" ∈ arguments then (← IO.getStdin).readToEnd else pure ""
  let surroundings : Command.Surroundings :=
    { input := input.toList
      environment := ← readEnvironment
      now := Float.ofInt time.toSecondsSinceUnixEpoch.val
      listing := List.map Setting.Problem.message }
  let ending := Command.execute surroundings (arguments.map String.toList)
    { tree, runs := ← IO.rand 0 (runNames - 2) }
  writeTree tree ending.workspace.tree
  IO.print (String.ofList ending.workspace.output)
  IO.eprint (String.ofList ending.workspace.errors)
  if ending.crash.isSome then
    IO.eprintln "Error: unexpected failure"
  return ending.code.toUInt32

end Main

end IdlFormat

/-- The executable. -/
def main (arguments : List String) : IO UInt32 :=
  IdlFormat.Main.run arguments
