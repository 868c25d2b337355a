import IdlFormat.Config.Style
import IdlFormat.Discovery.Filter
import IdlFormat.FileTree
import IdlFormat.Yaml.Fault

/-!
# Configurations

A configuration has three sections: the style of the layout, the filter for files and the settings
of the log of runs. Each section and each field has a default.
-/

namespace IdlFormat

open Setting

/-- The settings of the log of runs. -/
structure LogSettings where
  /-- Whether runs are logged. -/
  enabled : Bool := false
  /-- Where the log is kept. -/
  path : Text := ".midlfmt/telemetry.jsonl".toList
  /-- After how many days without an event the log is dropped; never, if the number is not
  positive. -/
  retentionDays : Int := 30
deriving DecidableEq, Repr

namespace LogSettings

/-- The log settings that a record of settings describes. -/
def ofFields (fields : Table Value) : Checked LogSettings :=
  let standard : LogSettings := {}
  let parts :=
    (Value.fieldOr fields "enabled" (.ok standard.enabled) Value.boolean).both <|
    (Value.fieldOr fields "log_path" (.ok standard.path) Value.textual).both
    (Value.fieldOr fields "retention_days" (.ok standard.retentionDays) Value.integer)
  parts.map fun (enabled, path, retentionDays) => { enabled, path, retentionDays }

/-- The log settings that a value describes. -/
def ofValue : Value → Checked LogSettings
  | .record fields => ofFields fields
  | _ => .fail (.notRecord "TelemetryConfig")

end LogSettings

/-- A configuration. -/
structure Config where
  /-- The settings of the layout. -/
  style : Style := {}
  /-- Which files of a directory are taken. -/
  filter : FileFilter := {}
  /-- The settings of the log of runs. -/
  log : LogSettings := {}
deriving DecidableEq, Repr

namespace Config

/-- The configuration with the default of each field. -/
def standard : Config := {}

/-- The configuration that a record of settings describes. -/
def ofFields (fields : Table Value) : Checked Config :=
  let parts :=
    (Value.fieldOr fields "style" (.ok {}) Style.ofValue).both <|
    (Value.fieldOr fields "files" (.ok {}) FileFilter.ofValue).both
    (Value.fieldOr fields "telemetry" (.ok {}) LogSettings.ofValue)
  parts.map fun (style, filter, log) => { style, filter, log }

/-- Why there is no configuration. -/
inductive Fault where
  /-- There is no file at the path. -/
  | notFound (path : Text)
  /-- The file cannot be opened. -/
  | unreadable (obstacle : Obstacle)
  /-- The file is no text. -/
  | undecodable (fault : Utf8.Fault)
  /-- The file is no document with a value. -/
  | unloadable (fault : Yaml.Fault)
  /-- The file at the path is no mapping. -/
  | notMapping (path : Text)
  /-- The file has an entry whose key is no text. -/
  | unnamedEntry
  /-- A record of the given kind has bad fields. -/
  | invalid (kind : String) (problems : List Problem)
  /-- A variable is no number. -/
  | badNumber (fault : Numeral.Fault)
deriving DecidableEq, Repr

/-- The heading of a report on the problems of a record. -/
def problemCount (kind : String) (count : Nat) : Text :=
  Text.ofNat count ++ " validation error".toList ++ (if count = 1 then [] else ['s']) ++
    " for ".toList ++ kind.toList

/-- The report on a fault, if there is one: a file that cannot be opened, that is not well formed or
that has entries without names has none. How the problems of a record are listed under the heading
is up to the library that checks records. -/
def Fault.message? (fault : Fault) (listing : List Problem → List Text := fun _ => []) :
    Option Text :=
  match fault with
  | .notFound path => some ("Config file not found: ".toList ++ path)
  | .undecodable fault => some fault.message
  | .unloadable fault => fault.message?
  | .notMapping path => some ("Config file must contain a mapping: ".toList ++ path)
  | .invalid kind problems =>
      some (Text.joinLines (problemCount kind problems.length :: listing problems))
  | .badNumber fault => some fault.message
  | .unreadable _ | .unnamedEntry => none

end Config

end IdlFormat
