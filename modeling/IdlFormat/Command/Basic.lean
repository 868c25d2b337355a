import IdlFormat.Command.Format
import IdlFormat.Command.Show

/-!
# The program

The first positional argument names a command, which gets everything after it.
-/

namespace IdlFormat

namespace Command

/-- The version of the program. -/
def version : Text :=
  "1.0.0".toList

/-- Carries out the options of a command that has commands of its own: the first one given that
asks for something is answered, and ends the program. -/
def answerOptions (outline : Outline) (arguments : Arguments) : Session Unit :=
  match arguments.names with
  | [] => return ()
  | name :: _ => do
      if name = "--version".toList then
        Session.writeLine ("midlfmt, version ".toList ++ version)
      else
        Session.write outline.usage
      Session.exit 0

/-- Reads the options of a command that has commands of its own; what follows them is left. -/
def readGroup (outline : Outline) (texts : List Text) : Session (List Text) := do
  match split outline.allFlags false texts with
  | .error fault => Session.refuse outline (.badOption fault)
  | .ok arguments =>
      answerOptions outline arguments
      return arguments.positional

/-- Refuses a command that is not there. A name that looks like an option is taken for one first. -/
def refuseCommand {α : Type} (outline : Outline) (texts : List Text) : Session α := do
  let name := texts.headD []
  if name.head? = some '-' then
    discard <| readGroup outline texts
  Session.refuse outline (.unknownCommand name)

/-- The commands on the log. -/
def telemetry (surroundings : Surroundings) (texts : List Text) : Session Unit := do
  if texts.isEmpty then
    Session.write logging.usage
    Session.exit 2
  match ← readGroup logging texts with
  | [] => Session.refuse logging .noCommand
  | name :: rest =>
      if name = "tail".toList then tail surroundings rest
      else refuseCommand logging (name :: rest)

/-- The program with its arguments. -/
def program.run (surroundings : Surroundings) (texts : List Text) : Session Unit := do
  if texts.isEmpty then
    Session.write program.usage
    Session.exit 2
  match ← readGroup program texts with
  | [] => Session.refuse program .noCommand
  | name :: rest =>
      if name = "format".toList then format surroundings rest
      else if name = "tokens".toList then tokens surroundings rest
      else if name = "hover".toList then hover rest
      else if name = "telemetry".toList then telemetry surroundings rest
      else refuseCommand program (name :: rest)

/-- How a program ended. -/
structure Ending where
  /-- The exit code. -/
  code : Nat
  /-- What broke the program off, if anything did. -/
  crash : Option Crash
  /-- What the program left behind. -/
  workspace : Workspace

/-- Runs the program in a workspace. -/
def execute (surroundings : Surroundings) (texts : List Text) (workspace : Workspace) : Ending :=
  match ((program.run surroundings texts).run).run workspace with
  | (.ok (), workspace) => ⟨0, none, workspace⟩
  | (.error (.exit code), workspace) => ⟨code, none, workspace⟩
  | (.error (.crash cause), workspace) => ⟨1, some cause, workspace⟩

end Command

end IdlFormat
