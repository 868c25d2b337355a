import IdlFormat.Discovery.Filter
import IdlFormat.FileTree

/-!
# Finding files

The paths of a run are files and directories. A file is always taken. A directory is searched from
the top down for files that the filter takes, and an excluded directory is not entered. A file that
is reached twice is taken once, as it was first spelled.
-/

namespace IdlFormat

namespace Discovery

/-- The path of something below a searched directory, relative to it. -/
def relativePath (parts : List Text) : Path :=
  ⟨.relative, parts⟩

/-- The files that a search takes below a directory, as components relative to the top of the
search. Here `parts` leads from the top to the directory and `levels` bounds how deep the search
goes. -/
def search (filter : FileFilter) (tree : FileTree) (top : Place) :
    (levels : Nat) → (parts : List Text) → List (List Text)
  | 0, _ => []
  | levels + 1, parts =>
      let place := top ++ parts
      let files := (tree.fileNames place).map fun name => parts ++ [name]
      let folders := (tree.folderNames place).map fun name => parts ++ [name]
      let taken := files.filter fun file =>
        filter.hasExtension (relativePath file) && !filter.isExcluded (relativePath file)
      let entered := folders.filter fun folder => !filter.isExcluded (relativePath folder)
      taken ++ entered.flatMap (search filter tree top levels)

/-- The files that a path stands for: itself, or the files found below it. A path at which there is
nothing stands for itself, unless there can be nothing at it. -/
def expand (filter : FileFilter) (tree : FileTree) (path : Path) : Except Obstacle (List Path) :=
  match tree.locate path with
  | .error .tooLong => .error .tooLong
  | .error .noPath => .error .noPath
  | .error _ => .ok [path]
  | .ok place =>
      if tree.isDirectory place then
        .ok ((search filter tree place tree.depth []).map fun parts =>
          { path with parts := path.parts ++ parts })
      else .ok [path]

/-- Drops every path that leads to the same place as an earlier one; `seen` lists the places so
far. -/
def dropRepeated (tree : FileTree) (seen : List Place) : List Path → List Path
  | [] => []
  | path :: paths =>
      let place := tree.resolve path
      if place ∈ seen then dropRepeated tree seen paths
      else path :: dropRepeated tree (place :: seen) paths

/-- The files that the paths of a run stand for, sorted and each once. -/
def discover (filter : FileFilter) (tree : FileTree) (paths : List Path) :
    Except Obstacle (List Path) := do
  let found ← paths.mapM (expand filter tree)
  return (dropRepeated tree [] found.flatten).mergeSort Path.le

end Discovery

end IdlFormat
