import IdlFormat.Command.Terminal
import IdlFormat.Command.Usage
import IdlFormat.Config.Environment
import IdlFormat.Config.Load
import IdlFormat.Log.Basic

/-!
# Sessions

A command reads from its surroundings and works on a workspace: the file tree, the two output
streams and the number of runs so far. What was done before a command halts stays done.
-/

namespace IdlFormat

namespace Command

/-- What a command finds around it. -/
structure Surroundings where
  /-- The text of the standard input. -/
  input : Text := []
  /-- The variables of the environment. -/
  environment : Environment := []
  /-- The time in seconds. -/
  now : Float
  /-- Paths of source files that may not be read. -/
  unreadable : List Text := []
  /-- Paths of source files that may not be written. -/
  unwritable : List Text := []
  /-- The lines in which a report lists the problems of a record. -/
  listing : List Setting.Problem → List Text := fun _ => []

/-- What a command works on. -/
structure Workspace where
  /-- The files. -/
  tree : FileTree
  /-- What was written to the standard output. -/
  output : Text := []
  /-- What was written to the standard error output. -/
  errors : Text := []
  /-- The number of runs so far. -/
  runs : Nat := 0

/-- A failure that is not reported. -/
inductive Crash where
  /-- A file cannot be opened. -/
  | obstacle (obstacle : Obstacle)
  /-- A file is no text. -/
  | undecodable (fault : Utf8.Fault)
  /-- A numeral has too many digits. -/
  | tooLong (excess : Numeral.TooLong)
  /-- The configuration is no document with a value. -/
  | unloadable (fault : Yaml.Fault)
  /-- The configuration has an entry whose key is no text. -/
  | unnamedEntry
  /-- The log has a line in which too much is open. -/
  | tooDeep (excess : Json.TooDeep)
  /-- The log is to be kept for longer than can be reckoned. -/
  | tooManyDays (excess : Log.TooManyDays)
deriving DecidableEq, Repr

/-- The end of a command before its last step. -/
inductive Halt where
  /-- The command ends with an exit code. -/
  | exit (code : Nat)
  /-- The command breaks off. -/
  | crash (cause : Crash)
deriving DecidableEq, Repr

/-- A computation on a workspace that may halt; the workspace is kept when it does. -/
abbrev Session := ExceptT Halt (StateM Workspace)

namespace Session

/-- Writes a text to the standard output, without control sequences. -/
def write (text : Text) : Session Unit :=
  modify fun workspace => { workspace with output := workspace.output ++ Terminal.plain text }

/-- Writes a line to the standard output. -/
def writeLine (text : Text) : Session Unit :=
  write (text ++ ['\n'])

/-- Writes a text to the standard error output, without control sequences. -/
def warn (text : Text) : Session Unit :=
  modify fun workspace => { workspace with errors := workspace.errors ++ Terminal.plain text }

/-- Writes a line to the standard error output. -/
def complain (text : Text) : Session Unit :=
  warn (text ++ ['\n'])

/-- Replaces the file tree. -/
def setTree (tree : FileTree) : Session Unit :=
  modify fun workspace => { workspace with tree }

/-- The file tree. -/
def tree : Session FileTree := do
  return (← get).tree

/-- Ends the command with an exit code. -/
def exit {α : Type} (code : Nat) : Session α :=
  throw (.exit code)

/-- Breaks the command off. -/
def crash {α : Type} (cause : Crash) : Session α :=
  throw (.crash cause)

/-- Ends the command with an error message. -/
def fail {α : Type} (message : Text) : Session α := do
  complain ("Error: ".toList ++ message)
  exit 1

/-- Ends a command that was called in a way that does not fit. -/
def refuse {α : Type} (outline : Outline) (misuse : Misuse) : Session α := do
  warn (misuse.report outline)
  exit 2

/-- The result of a step that breaks the command off if it fails. -/
def orCrash {α ε : Type} (cause : ε → Crash) : Except ε α → Session α
  | .ok value => return value
  | .error fault => crash (cause fault)

end Session

/-- The failure that a fault of a configuration is, if it is not reported. -/
def crashOf? : Config.Fault → Option Crash
  | .unreadable obstacle => some (.obstacle obstacle)
  | .unnamedEntry => some .unnamedEntry
  | .unloadable fault => if fault.isReported then none else some (.unloadable fault)
  | _ => none

/-- Ends a command whose configuration cannot be used. -/
def rejectConfig {α : Type} (surroundings : Surroundings) (fault : Config.Fault) : Session α :=
  match crashOf? fault with
  | some cause => Session.crash cause
  | none =>
      let message := (fault.message? surroundings.listing).getD []
      Session.fail ("Invalid configuration: ".toList ++ message)

/-- The configuration of a command: the file that was asked for or else that of the project in the
working directory, overridden by the environment. -/
def loadConfig (surroundings : Surroundings) (file : Option Text) : Session Config := do
  let tree ← Session.tree
  let loaded :=
    match file with
    | some path => Config.load tree (Path.ofText path)
    | none => Config.loadProject tree ⟨.root, tree.current⟩
  match loaded with
  | .error fault => rejectConfig surroundings fault
  | .ok config =>
      match config.override surroundings.environment with
      | (_, some fault) => rejectConfig surroundings fault
      | (config, none) => return config

/-- Why a value is not taken. -/
inductive Rejection where
  /-- The value does not fit. -/
  | refused (reason : Text)
  /-- Looking at the value fails. -/
  | crashed (cause : Crash)
deriving DecidableEq, Repr

/-- Ends a command that got a bad value for an option or argument. -/
def rejectValue {α : Type} (outline : Outline) (names : List Text) : Rejection → Session α
  | .refused reason => Session.refuse outline (.badValue names reason)
  | .crashed cause => Session.crash cause

/-- A way in which the value of an option or argument is read. -/
abbrev Reader (α : Type) := FileTree → Text → Except Rejection α

namespace Reader

/-- A path at which there must be something, which may not be a directory if only a file will do. -/
def path (fileOnly : Bool) : Reader Text := fun tree text =>
  let kind := if fileOnly then "File ".toList else "Path ".toList
  match tree.locateText text >>= tree.entry with
  | .error .noPath => .error (.crashed (.obstacle .noPath))
  | .error _ => .error (.refused (kind ++ text.quoted ++ " does not exist.".toList))
  | .ok none =>
      if fileOnly then .error (.refused (kind ++ text.quoted ++ " is a directory.".toList))
      else .ok text
  | .ok (some _) => .ok text

/-- A path at which there must be something, or a dash. -/
def pathOrDash : Reader Text := fun tree text =>
  if text = ['-'] then .ok text else path false tree text

/-- An integer. -/
def integer : Reader Int := fun _ text =>
  (Numeral.parse text).mapError fun _ =>
    .refused (text.quoted ++ " is not a valid integer.".toList)

/-- A width of a level. -/
def width : Reader { width : Nat // 1 ≤ width ∧ width ≤ 16 } := fun _ text =>
  match Numeral.parse text with
  | .error _ => .error (.refused (text.quoted ++ " is not a valid integer range.".toList))
  | .ok number =>
      if valid : 1 ≤ number.toNat ∧ number.toNat ≤ 16 then .ok ⟨number.toNat, valid⟩
      else .error (.refused (Text.ofInt number ++ " is not in the range 1<=x<=16.".toList))

end Reader

/-- Reads the value of an option, if it was given. -/
def readValue? {α : Type} (outline : Outline) (arguments : Arguments) (name : String)
    (reader : Reader α) : Session (Option α) := do
  match arguments.value? name with
  | none => return none
  | some text =>
      match reader (← Session.tree) text with
      | .ok value => return some value
      | .error rejection =>
          let names := ((find? outline.flags name.toList).map Flag.names).getD []
          rejectValue outline names rejection

/-- Takes the arguments of a command apart, with its options before or after its arguments. -/
def readArguments (outline : Outline) (texts : List Text) : Session Arguments := do
  match split outline.allFlags true texts with
  | .error fault => Session.refuse outline (.badOption fault)
  | .ok arguments =>
      if arguments.has "--help" then
        Session.write outline.usage
        Session.exit 0
      return arguments

/-- Refuses arguments beyond those that a command takes. -/
def refuseExtra (outline : Outline) (arguments : List Text) : Session Unit :=
  if arguments.isEmpty then return ()
  else Session.refuse outline (.extraArguments arguments)

end Command

end IdlFormat
