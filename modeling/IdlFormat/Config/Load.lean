import IdlFormat.Config.Basic
import IdlFormat.Text.Lines
import IdlFormat.Yaml.Value

/-!
# Configuration files

A configuration file is a YAML mapping of the sections. A file that holds nothing stands for the
default configuration, and so does a project without a file.
-/

namespace IdlFormat

namespace Config

open Setting

/-- The name of the configuration file of a project. -/
def fileName : Text :=
  ".midlfmt.yml".toList

/-- The configuration that a document at a path describes. -/
def ofDocument (path : Path) (document : Yaml.Node) : Except Fault Config :=
  match document.value with
  | .null => .ok standard
  | .record fields =>
      if document.hasTextKeys then (ofFields fields).mapError (.invalid "FormatterConfig")
      else .error .unnamedEntry
  | _ => .error (.notMapping path.toText)

/-- The configuration in the file at a path. -/
def load (tree : FileTree) (path : Path) : Except Fault Config := do
  if !(← (tree.hasEntry path).mapError .unreadable) then throw (.notFound path.toText)
  let bytes ← (tree.read path).mapError .unreadable
  let text ← (Utf8.decodeStream bytes).mapError .undecodable
  let document ← (Yaml.load text.normalizeBreaks).mapError .unloadable
  ofDocument path document

/-- The configuration of the project in a directory. -/
def loadProject (tree : FileTree) (directory : Path) : Except Fault Config := do
  let path := directory.child fileName
  if ← (tree.hasEntry path).mapError .unreadable then load tree path else return standard

end Config

end IdlFormat
