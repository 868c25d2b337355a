import IdlFormat.Command.Arguments
import IdlFormat.Text.Quoted

/-!
# How commands are called

Each command has a name, an outline of its arguments and options. A call that does not fit is
answered with the outline and a message.
-/

namespace IdlFormat

namespace Command

/-- How a command is called. -/
structure Outline where
  /-- The words that lead to the command. -/
  words : List String
  /-- What follows them, as it is shown. -/
  operands : String
  /-- The options of the command, help apart. -/
  flags : List Flag
deriving DecidableEq, Repr

/-- The option that asks for help. -/
def helpFlag : Flag := ⟨["--help".toList], false⟩

/-- All options of a command. -/
def Outline.allFlags (outline : Outline) : List Flag :=
  outline.flags ++ [helpFlag]

/-- The words that lead to a command, as they are typed. -/
def Outline.path (outline : Outline) : Text :=
  Text.join [' '] (outline.words.map String.toList)

/-- The line that outlines a call. -/
def Outline.usage (outline : Outline) : Text :=
  let operands := if outline.operands.isEmpty then [] else [outline.operands.toList]
  "Usage: ".toList ++ Text.join [' '] (outline.path :: "[OPTIONS]".toList :: operands) ++ ['\n']

/-- An option with a value and its spellings. -/
def valued (names : List String) : Flag := ⟨names.map String.toList, true⟩

/-- An option without a value and its spelling. -/
def switch (names : List String) : Flag := ⟨names.map String.toList, false⟩

/-- The program as a whole. -/
def program : Outline :=
  ⟨["midlfmt"], "COMMAND [ARGS]...", [switch ["--version"]]⟩

/-- The command that formats files. -/
def formatting : Outline :=
  ⟨["midlfmt", "format"], "PATHS...",
    [valued ["--config", "-c"], switch ["--in-place", "-i"], switch ["--check"], switch ["--diff"],
      valued ["--indent-width"]]⟩

/-- The command that shows tokens. -/
def listing : Outline :=
  ⟨["midlfmt", "tokens"], "FILE", [switch ["--json"]]⟩

/-- The command that shows help on a word. -/
def explaining : Outline :=
  ⟨["midlfmt", "hover"], "WORD", []⟩

/-- The commands on the log. -/
def logging : Outline :=
  ⟨["midlfmt", "telemetry"], "COMMAND [ARGS]...", []⟩

/-- The command that shows the end of the log. -/
def tailing : Outline :=
  ⟨["midlfmt", "telemetry", "tail"], "", [valued ["--config", "-c"], valued ["--lines", "-n"]]⟩

/-- Why a call does not fit. -/
inductive Misuse where
  /-- Something is wrong with the options. -/
  | badOption (fault : OptionFault)
  /-- There is no such command. -/
  | unknownCommand (name : Text)
  /-- A command is missing. -/
  | noCommand
  /-- An argument is missing. -/
  | missingArgument (name : Text)
  /-- There are more arguments than the command takes. -/
  | extraArguments (arguments : List Text)
  /-- An option or argument, named as the user types it, has a bad value. -/
  | badValue (names : List Text) (reason : Text)
  /-- Options and arguments do not go together. -/
  | conflict (reason : Text)
deriving DecidableEq, Repr

/-- The message on an option that cannot be read. -/
def OptionFault.message : OptionFault → Text
  | .unknown spelling => "No such option ".toList ++ spelling.quoted ++ ['.']
  | .noValue spelling => "Option ".toList ++ spelling.quoted ++ " requires an argument.".toList
  | .hasValue spelling => "Option ".toList ++ spelling.quoted ++ " does not take a value.".toList

/-- A name between plain quotes. -/
def named (name : Text) : Text :=
  '\'' :: name ++ ['\'']

/-- The message on a call that does not fit. -/
def Misuse.message : Misuse → Text
  | .badOption fault => fault.message
  | .unknownCommand name => "No such command ".toList ++ name.quoted ++ ['.']
  | .noCommand => "Missing command.".toList
  | .missingArgument name => "Missing argument ".toList ++ named name ++ ['.']
  | .extraArguments arguments =>
      "Got unexpected extra argument".toList ++ (if arguments.length = 1 then [] else ['s']) ++
        " (".toList ++ Text.join [' '] arguments ++ [')']
  | .badValue names reason =>
      "Invalid value for ".toList ++ Text.join " / ".toList (names.map named) ++ [':', ' '] ++
        reason
  | .conflict reason => reason

/-- Whether the outline of the command is shown with a message. -/
def Misuse.showsOutline : Misuse → Bool
  | .badOption (.noValue _) | .badOption (.hasValue _) => false
  | _ => true

/-- The answer to a call that does not fit. -/
def Misuse.report (misuse : Misuse) (outline : Outline) : Text :=
  let shown :=
    if misuse.showsOutline then
      outline.usage ++ "Try '".toList ++ outline.path ++ " --help' for help.\n\n".toList
    else []
  shown ++ "Error: ".toList ++ misuse.message ++ ['\n']

end Command

end IdlFormat
