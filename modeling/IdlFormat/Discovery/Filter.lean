import IdlFormat.Glob
import IdlFormat.Path
import IdlFormat.Setting.Value
import IdlFormat.Text.Lower

/-!
# Which files to format

When a directory is searched, its files are taken by their suffix, and whatever a pattern excludes
is left out.
-/

namespace IdlFormat

open Setting

/-- Which files of a directory are taken. -/
structure FileFilter where
  /-- The suffixes of the files, each with its dot and in lower case. -/
  extensions : List Text := [".idl".toList, ".acf".toList, ".odl".toList]
  /-- Patterns for what is left out. -/
  exclude : List Text := [".git".toList, "build".toList, "*.generated.idl".toList]
deriving DecidableEq, Repr

namespace FileFilter

/-- A suffix in lower case and with its dot; a blank one is none. -/
def normalizeExtension? (text : Text) : Option Text :=
  match text.trim.lower with
  | [] => none
  | '.' :: rest => some ('.' :: rest)
  | extension => some ('.' :: extension)

/-- Whether a pattern excludes a path, or one of its components. -/
def isExcluded (filter : FileFilter) (path : Path) : Bool :=
  filter.exclude.any fun pattern =>
    Glob.isMatch pattern path.toText || path.components.any (Glob.isMatch pattern)

/-- Whether a path has one of the suffixes, in any case. -/
def hasExtension (filter : FileFilter) (path : Path) : Bool :=
  path.suffix.lower ∈ filter.extensions

/-- The filter that a record of settings describes. -/
def ofFields (fields : Table Value) : Checked FileFilter :=
  let standard : FileFilter := {}
  (Checked.both
    (Value.fieldOr fields "extensions" (.ok standard.extensions) fun value =>
      value.texts.map (·.filterMap normalizeExtension?))
    (Value.fieldOr fields "exclude" (.ok standard.exclude) Value.texts)).map
  fun (extensions, exclude) => { extensions, exclude }

/-- The filter that a value describes. -/
def ofValue : Value → Checked FileFilter
  | .record fields => ofFields fields
  | _ => .fail (.notRecord "FilesConfig")

end FileFilter

end IdlFormat
