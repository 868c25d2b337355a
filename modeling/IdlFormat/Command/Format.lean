import IdlFormat.Command.Session
import IdlFormat.Diff.Unified
import IdlFormat.Discovery.Basic
import IdlFormat.Document
import IdlFormat.Log.Basic

/-!
# Formatting files

A run formats the files that its paths stand for. It shows the result, or it reports, shows or
writes what changes; a file that cannot be read or written does not stop it. Every step is logged.
-/

namespace IdlFormat

namespace Command

/-- A call of the command that formats files. -/
structure FormatCall where
  /-- Files and directories, or a lone dash for the standard input. -/
  paths : List Text
  /-- The configuration file that was asked for. -/
  config : Option Text
  /-- Whether files that change are written. -/
  inPlace : Bool
  /-- Whether files that would change are reported. -/
  check : Bool
  /-- Whether changes are shown as a diff. -/
  diff : Bool
  /-- The width of a level that was asked for. -/
  width : Option { width : Nat // 1 ≤ width ∧ width ≤ 16 }

namespace FormatCall

/-- Whether the formatted text itself is shown. -/
def toOutput (call : FormatCall) : Bool :=
  !(call.inPlace || call.check || call.diff)

/-- The name of the way in which a call reports. -/
def mode (call : FormatCall) : Text :=
  if call.check then "check".toList
  else if call.inPlace then "in-place".toList
  else if call.diff then "diff".toList
  else "stdout".toList

/-- The style of a call: that of the configuration with the width that was asked for. -/
def style (call : FormatCall) (config : Config) : Style :=
  match call.width with
  | some width => { config.style with
      indentWidth := width.1
      one_le_indentWidth := Style.one_le_width width
      indentWidth_le_sixteen := Style.width_le_sixteen width }
  | none => config.style

end FormatCall

/-- Reads the options and paths of a call. Bad values are reported in the order in which the options
were given, and then in the order of the paths. -/
def readFormatCall (texts : List Text) : Session FormatCall := do
  let arguments ← readArguments formatting texts
  for name in arguments.names do
    if name = "--config".toList then
      discard <| readValue? formatting arguments "--config" (Reader.path true)
    else if name = "--indent-width".toList then
      discard <| readValue? formatting arguments "--indent-width" Reader.width
  if arguments.positional.isEmpty then
    Session.refuse formatting (.missingArgument "PATHS...".toList)
  let tree ← Session.tree
  for text in arguments.positional do
    if let .error rejection := Reader.pathOrDash tree text then
      rejectValue formatting ["PATHS...".toList] rejection
  return {
    paths := arguments.positional
    config := arguments.value? "--config"
    inPlace := arguments.has "--in-place"
    check := arguments.has "--check"
    diff := arguments.has "--diff"
    width := ← readValue? formatting arguments "--indent-width" Reader.width }

/-- The diff between a text and its formatted form. -/
def diffText (name given formatted : Text) : Text :=
  Diff.unified (['a', '/'] ++ name) (['b', '/'] ++ name) given.keptLines formatted.keptLines

/-- Formats the standard input. -/
def formatInput (surroundings : Surroundings) (call : FormatCall) (style : Style) :
    Session Unit := do
  if call.paths.length > 1 then
    Session.refuse formatting (.conflict "'-' (stdin) cannot be combined with other paths".toList)
  if call.inPlace then
    Session.refuse formatting (.conflict "--in-place cannot be used with stdin".toList)
  let given := surroundings.input.normalizeBreaks
  let formatted ← Session.orCrash .tooLong (Document.format style given)
  if call.diff then
    Session.write (diffText "<stdin>".toList given formatted)
  else if !call.check then
    Session.write formatted
  if call.check && formatted != given then
    Session.complain "would reformat <stdin>".toList
    Session.exit 1

/-- What is the same for all files of a run. -/
structure Run where
  /-- The call that started the run. -/
  call : FormatCall
  /-- The settings of the layout. -/
  style : Style
  /-- The log. -/
  sink : Log.Sink
  /-- What the run finds around it. -/
  surroundings : Surroundings

/-- What became of a file. -/
inductive Outcome where
  /-- The file could not be read or written. -/
  | failed
  /-- The file was written or would be. -/
  | changed
  /-- There was nothing to write. -/
  | kept
deriving DecidableEq, Repr

namespace Run

/-- Logs an event. -/
def log (run : Run) (event : Event) : Session Unit := do
  Session.setTree
    (← Session.orCrash .obstacle (run.sink.log (← Session.tree) run.surroundings.now event))

/-- The text of a file, or a message why there is none. -/
def readFile (run : Run) (tree : FileTree) (path : Path) : Except Text Text := do
  let unopened := fun (obstacle : Obstacle) => obstacle.message path.toText
  if path.toText ∈ run.surroundings.unreadable then throw (unopened .denied)
  let bytes ← (tree.read path).mapError unopened
  (Utf8.decode bytes).mapError Utf8.Fault.message

/-- The tree with a new text in a file, or a message why it cannot be written. -/
def writeFile (run : Run) (tree : FileTree) (path : Path) (text : Text) :
    Except Text FileTree := do
  let unopened := fun (obstacle : Obstacle) => obstacle.message path.toText
  if path.toText ∈ run.surroundings.unwritable then throw (unopened .denied)
  (tree.write run.surroundings.now path (Utf8.encode text)).mapError unopened

/-- Reports and logs that a file could not be read or written. -/
def failFile (run : Run) (stage : String) (path : Path) (message : Text) : Session Outcome := do
  Session.complain ("error: cannot ".toList ++ stage.toList ++ [' '] ++ path.toText ++ [':', ' '] ++
    message)
  run.log (.fileFailed path stage.toList message)
  return .failed

/-- Writes the new text of a file that changes, unless the run only checks. -/
def saveFile (run : Run) (path : Path) (formatted : Text) : Session Outcome := do
  if run.call.check then
    Session.complain ("would reformat ".toList ++ path.toText)
    return .changed
  else if run.call.inPlace then
    match run.writeFile (← Session.tree) path formatted with
    | .error message => run.failFile "write" path message
    | .ok tree =>
        Session.setTree tree
        Session.complain ("reformatted ".toList ++ path.toText)
        return .changed
  else return .changed

/-- Formats one file. -/
def formatFile (run : Run) (path : Path) : Session Outcome := do
  match run.readFile (← Session.tree) path with
  | .error message => run.failFile "read" path message
  | .ok given =>
      let formatted ← Session.orCrash .tooLong (Document.format run.style given)
      let duration := run.surroundings.now - run.surroundings.now
      run.log (.formatted path given formatted duration)
      if run.call.toOutput then
        Session.write formatted
        return .kept
      else if formatted = given then return .kept
      else
        if run.call.diff then
          Session.write (diffText path.toText given formatted)
        run.saveFile path formatted

/-- Formats files one after the other. -/
def formatFiles (run : Run) : List Path → Session (List Outcome)
  | [] => return []
  | path :: paths => do
      let outcome ← run.formatFile path
      return outcome :: (← run.formatFiles paths)

/-- The line that sums a run up. -/
def summary (call : FormatCall) (outcomes : List Outcome) : Text :=
  let verb := if call.check || !call.inPlace then "would be reformatted" else "reformatted"
  Text.ofNat (outcomes.count .changed) ++ " file(s) ".toList ++ verb.toList ++ [',', ' '] ++
    Text.ofNat (outcomes.count .kept) ++ " unchanged, ".toList ++
    Text.ofNat (outcomes.count .failed) ++ " failed".toList

/-- The exit code of a run: failures count more than changes, which count only when checking. -/
def exitCode (call : FormatCall) (outcomes : List Outcome) : Nat :=
  if .failed ∈ outcomes then 2 else if call.check && .changed ∈ outcomes then 1 else 0

/-- Formats the files of a run, logs its start and end, and sums it up. -/
def complete (run : Run) (files : List Path) : Session Unit := do
  run.log (.runStarted run.call.paths files.length run.call.mode)
  let outcomes ← run.formatFiles files
  run.log (.runCompleted files.length (outcomes.count .changed) (outcomes.count .failed))
  if !run.call.toOutput then
    Session.complain (summary run.call outcomes)
  let code := exitCode run.call outcomes
  if code != 0 then
    Session.exit code

end Run

/-- Formats the files that the paths of a call stand for. -/
def formatPaths (surroundings : Surroundings) (call : FormatCall) (config : Config) :
    Session Unit := do
  let number := (← get).runs + 1
  let (tree, sink) ← Session.orCrash .tooManyDays
    (Log.start (← Session.tree) surroundings.now config.log (Log.runName number))
  modify fun workspace => { workspace with tree, runs := number }
  let files ← Session.orCrash .obstacle
    (Discovery.discover config.filter tree (call.paths.map Path.ofText))
  if files.isEmpty then
    Session.complain "No MIDL files found.".toList
  else if call.toOutput && files.length > 1 then
    Session.refuse formatting
      (.conflict "Multiple files need --in-place, --check or --diff".toList)
  else
    Run.complete ⟨call, call.style config, sink, surroundings⟩ files

/-- The command that formats files. -/
def format (surroundings : Surroundings) (texts : List Text) : Session Unit := do
  let call ← readFormatCall texts
  let config ← loadConfig surroundings call.config
  if ['-'] ∈ call.paths then formatInput surroundings call (call.style config)
  else formatPaths surroundings call config

end Command

end IdlFormat
