import IdlFormat.Command.Session
import IdlFormat.Document
import IdlFormat.Documentation.Hover
import IdlFormat.Log.Basic

/-!
# Showing things

The commands that show the tokens of a file, the help on a word and the end of the log.
-/

namespace IdlFormat

namespace Command

/-- Takes the only argument of a command. -/
def readSingle (outline : Outline) (arguments : Arguments) : Session (Text × List Text) :=
  match arguments.positional with
  | [] => Session.refuse outline (.missingArgument outline.operands.toList)
  | argument :: others => return (argument, others)

/-- The content of a source file, or the standard input for a lone dash. -/
def readSource (surroundings : Surroundings) (outline : Outline) (name : Text) :
    Session (Except Utf8.Fault Text) := do
  if name = ['-'] then return .ok surroundings.input
  else
    match (← Session.tree).readText name with
    | .ok bytes => return Utf8.decode bytes
    | .error .noPath => Session.crash (.obstacle .noPath)
    | .error obstacle =>
        Session.refuse outline
          (.badValue [outline.operands.toList]
            (named name ++ [':', ' '] ++ obstacle.sentence.toList))

/-- A token in JSON. -/
def tokenJson (token : Token) : Json :=
  .ofFields [("kind", .ofString token.kind.name), ("text", .string token.text),
    ("raw_text", (token.rawText.map Json.string).getD .null)]

/-- A token on one line: its kind and its text, in which line breaks are written out. -/
def tokenLine (token : Token) : Text :=
  token.kind.name.toList ++ '\t' ::
    token.text.flatMap fun c => if c = '\n' then ['\\', 'n'] else [c]

/-- The command that shows tokens. -/
def tokens (surroundings : Surroundings) (texts : List Text) : Session Unit := do
  let arguments ← readArguments listing texts
  let (name, others) ← readSingle listing arguments
  let source ← readSource surroundings listing name
  refuseExtra listing others
  let text ← Session.orCrash .undecodable source
  let found ← Session.orCrash .tooLong (Document.tokens text)
  if arguments.has "--json" then
    Session.writeLine (Json.array (found.map tokenJson)).renderBlock
  else
    Session.write (found.flatMap fun token => tokenLine token ++ ['\n'])

/-- The command that shows help on a word. -/
def hover (texts : List Text) : Session Unit := do
  let arguments ← readArguments explaining texts
  let (word, others) ← readSingle explaining arguments
  refuseExtra explaining others
  match Documentation.lookup word with
  | some entry => Session.writeLine entry.render
  | none => Session.fail ("No documentation for: ".toList ++ word)

/-- The last items of a list; none, if their number is not positive. -/
def lastItems {α : Type} (count : Int) (items : List α) : List α :=
  items.drop (items.length - count.toNat)

/-- The number of events that are shown if no other was asked for. -/
def shownEvents : Int := 20

/-- The command that shows the end of the log. -/
def tail (surroundings : Surroundings) (texts : List Text) : Session Unit := do
  let arguments ← readArguments tailing texts
  for name in arguments.names do
    if name = "--config".toList then
      discard <| readValue? tailing arguments "--config" (Reader.path true)
    else if name = "--lines".toList then
      discard <| readValue? tailing arguments "--lines" Reader.integer
  refuseExtra tailing arguments.positional
  let count ← readValue? tailing arguments "--lines" Reader.integer
  let config ← loadConfig surroundings (arguments.value? "--config")
  let path := Path.ofText config.log.path
  let tree ← Session.tree
  if !(← Session.orCrash .obstacle (tree.hasEntry path)) then
    Session.fail ("Telemetry file not found: ".toList ++ path.toText)
  let events ← Session.orCrash
    (fun
      | .unreadable obstacle => Crash.obstacle obstacle
      | .undecodable fault => .undecodable fault
      | .tooLong excess => .tooLong excess
      | .tooDeep excess => .tooDeep excess)
    (Log.read tree path)
  Session.write
    ((lastItems (count.getD shownEvents) events).flatMap fun event => event.render ++ ['\n'])

end Command

end IdlFormat
