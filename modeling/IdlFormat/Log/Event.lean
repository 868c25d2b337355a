import IdlFormat.Json.Basic
import IdlFormat.Path
import IdlFormat.Text.Utf8

/-!
# Events of a run

A run tells when it starts, what became of each file, and when it completes. In the log, what it
tells stands behind the time, the name of the run and the kind of the event.
-/

namespace IdlFormat

/-- The entry of the log on something of a kind that happened in a run at a time. -/
def Log.entry (now : Float) (run kind : Text) (data : Table Json) : Json :=
  .ofFields [("timestamp", .float now), ("run_id", .string run), ("type", .string kind),
    ("data", .object data)]

/-- What happens in a run. -/
inductive Event where
  /-- The run begins with the given paths, which stand for a number of files. -/
  | runStarted (paths : List Text) (files : Int) (mode : Text)
  /-- A file was formatted. -/
  | fileFormatted (path : Path) (changed : Bool) (inputBytes outputBytes : Nat) (duration : Float)
  /-- A file could not be read or written. -/
  | fileFailed (path : Path) (stage error : Text)
  /-- The run is over. -/
  | runCompleted (files changed failed : Int)
deriving Repr

namespace Event

/-- The event that a text was formatted, which took a number of seconds. -/
def formatted (path : Path) (before after : Text) (duration : Float) : Event :=
  .fileFormatted path (before != after) (Utf8.encode before).length (Utf8.encode after).length
    duration

/-- The name of the kind of an event. -/
def kind : Event → String
  | .runStarted .. => "run_started"
  | .fileFormatted .. => "file_formatted"
  | .fileFailed .. => "file_failed"
  | .runCompleted .. => "run_completed"

/-- What an event tells. -/
def data : Event → Table Json
  | .runStarted paths files mode =>
      Json.table [("paths", .array (paths.map .string)), ("files", .int files),
        ("mode", .string mode)]
  | .fileFormatted path changed inputBytes outputBytes duration =>
      Json.table [("path", .string path.toText), ("changed", .bool changed),
        ("input_bytes", .int inputBytes), ("output_bytes", .int outputBytes),
        ("duration_s", .float duration)]
  | .fileFailed path stage error =>
      Json.table [("path", .string path.toText), ("stage", .string stage),
        ("error", .string error)]
  | .runCompleted files changed failed =>
      Json.table [("files", .int files), ("changed", .int changed), ("failed", .int failed)]

end Event

end IdlFormat
