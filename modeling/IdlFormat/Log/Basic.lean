import IdlFormat.Config.Basic
import IdlFormat.Json.Parser
import IdlFormat.Json.Printer
import IdlFormat.Log.Event
import IdlFormat.Text.Lines

/-!
# The log of runs

The log is a file with one event to a line. It is only ever appended to; when a run opens a log that
was not written to for too long, the old log is dropped first. Lines that hold no JSON are passed
over when the log is read.
-/

namespace IdlFormat

namespace Log

/-- The seconds of a day. -/
def secondsPerDay : Int := 86400

/-- A number of days lies beyond all times. -/
structure TooManyDays where
deriving DecidableEq, Repr

/-- The report on a number of days that lies beyond all times. -/
def TooManyDays.message : Text :=
  "int too large to convert to float".toList

/-- The least integer that rounds to no finite double. -/
def timeLimit : Nat := Nat.pow 2 1024 - Nat.pow 2 970

/-- The last time at which a log is too old, if logs are dropped after a number of days. -/
def cutoff (now : Float) (days : Int) : Except TooManyDays Float :=
  let seconds := days * secondsPerDay
  if seconds.natAbs < timeLimit then .ok (now - Float.ofInt seconds) else .error {}

/-- Drops the log at a path if it was not written to for a number of days. -/
def prune (tree : FileTree) (now : Float) (path : Path) (days : Int) :
    Except TooManyDays FileTree :=
  match (tree.locate path).bind fun place => (place, ·) <$> tree.entry place with
  | .error _ => .ok tree
  | .ok (place, entry) =>
      if days ≤ 0 then .ok tree
      else do
        let oldest ← cutoff now days
        return if entry.any (·.modified < oldest) then tree.remove place else tree

/-- A log as a run sees it. -/
structure Sink where
  /-- Whether events are written. -/
  enabled : Bool
  /-- Where the log is kept. -/
  path : Path
  /-- The run that the events belong to. -/
  run : Text
deriving DecidableEq, Repr

namespace Sink

/-- The sink of a run with some settings. -/
def ofSettings (settings : LogSettings) (run : Text) : Sink :=
  ⟨settings.enabled, Path.ofText settings.path, run⟩

/-- The line of something that happened. -/
def line (sink : Sink) (now : Float) (kind : Text) (data : Table Json) : Text :=
  (entry now sink.run kind data).render ++ ['\n']

/-- Writes a line at the end of the log, and makes the directory of the log first. -/
def append (sink : Sink) (tree : FileTree) (now : Float) (line : Text) :
    Except Obstacle FileTree := do
  (← tree.ensureParent sink.path).append now sink.path (Utf8.encode line)

/-- Writes an event of a run, if events are written. The numbers of such an event are counts, which
are never too long to be written. -/
def log (sink : Sink) (tree : FileTree) (now : Float) (event : Event) :
    Except Obstacle FileTree :=
  if sink.enabled then sink.append tree now (sink.line now event.kind.toList event.data)
  else .ok tree

/-- Why something is not logged. -/
inductive Refusal where
  /-- The log cannot be opened. -/
  | unopened (obstacle : Obstacle)
  /-- The entry cannot be written. -/
  | unwritten (refusal : Json.Refusal)
deriving DecidableEq, Repr

/-- Logs something of any kind, if events are written. The log is opened before the entry is
written. -/
def record (sink : Sink) (tree : FileTree) (now : Float) (kind : Text) (data : Table Json) :
    Except Refusal FileTree :=
  if sink.enabled then do
    let logged ← (sink.append tree now (sink.line now kind data)).mapError .unopened
    match (entry now sink.run kind data).refusal? 0 with
    | some refusal => throw (.unwritten refusal)
    | none => return logged
  else .ok tree

/-- An event of a run is logged like anything else. -/
theorem record_event {sink : Sink} {now : Float} {event : Event}
    (written : (entry now sink.run event.kind.toList event.data).refusal? 0 = none)
    (tree : FileTree) :
    sink.record tree now event.kind.toList event.data =
      (sink.log tree now event).mapError .unopened := by
  cases active : sink.enabled with
  | false =>
      simp only [record, log, active]
      rfl
  | true =>
      simp only [record, log, active, if_true, written]
      cases sink.append tree now (sink.line now event.kind.toList event.data) <;> rfl

end Sink

/-- Drops an old log and opens a sink for a run; a log that is not written to is left alone. -/
def start (tree : FileTree) (now : Float) (settings : LogSettings) (run : Text) :
    Except TooManyDays (FileTree × Sink) :=
  let sink := Sink.ofSettings settings run
  if settings.enabled then (·, sink) <$> prune tree now sink.path settings.retentionDays
  else .ok (tree, sink)

/-- The name of the run with a number: twelve hexadecimal digits. -/
def runName (number : Nat) : Text :=
  Text.hex 12 number

/-- Why a log cannot be read. -/
inductive Fault where
  /-- The log cannot be opened. -/
  | unreadable (obstacle : Obstacle)
  /-- The log is no text. -/
  | undecodable (fault : Utf8.Fault)
  /-- The log has a number with too many digits. -/
  | tooLong (excess : Numeral.TooLong)
  /-- The log has a line in which too much is open. -/
  | tooDeep (excess : Json.TooDeep)
deriving DecidableEq, Repr

/-- The events on some lines. -/
def ofLines : List Text → Except Fault (List Json)
  | [] => .ok []
  | line :: lines =>
      match Json.parse line.trim with
      | .ok event => (ofLines lines).map (event :: ·)
      | .error .malformed => ofLines lines
      | .error (.tooLong excess) => .error (.tooLong excess)
      | .error (.tooDeep excess) => .error (.tooDeep excess)

/-- The events of the log at a path; a log that is not there has none. -/
def read (tree : FileTree) (path : Path) : Except Fault (List Json) := do
  if !(← (tree.hasEntry path).mapError .unreadable) then return []
  let bytes ← (tree.read path).mapError .unreadable
  let text ← (Utf8.decodeStream bytes).mapError .undecodable
  ofLines (Text.splitOn '\n' text.normalizeBreaks)

end Log

end IdlFormat
