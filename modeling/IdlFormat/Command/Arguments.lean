import IdlFormat.Text.Basic

/-!
# Arguments

The arguments of a command are options and positional arguments. A long option may have its value
attached by `=`, short options may share a dash, and a value may also be the next argument. After
`--` everything is positional, and a lone dash always is.
-/

namespace IdlFormat

namespace Command

/-- An option that a command knows. -/
structure Flag where
  /-- The spellings of the option, the first of which names it. -/
  names : List Text
  /-- Whether the option has a value. -/
  takesValue : Bool
deriving DecidableEq, Repr

/-- The name of an option. -/
def Flag.name (flag : Flag) : Text :=
  flag.names.headD []

/-- An option as it was given: its name and its value, if it has one. -/
abbrev Given := Text × Option Text

/-- What is wrong with options. -/
inductive OptionFault where
  /-- No option is spelled like this. -/
  | unknown (spelling : Text)
  /-- The value of the option is missing. -/
  | noValue (spelling : Text)
  /-- The option has a value but takes none. -/
  | hasValue (spelling : Text)
deriving DecidableEq, Repr

/-- What one argument gives: options, and maybe the spelling and name of one whose value is the next
argument. -/
structure Reading where
  /-- The options. -/
  given : List Given
  /-- The option that waits for its value. -/
  waiting : Option (Text × Text)
deriving DecidableEq, Repr

/-- The option with a spelling. -/
def find? (flags : List Flag) (spelling : Text) : Option Flag :=
  flags.find? fun flag => spelling ∈ flag.names

/-- Whether a spelling is a dash and one character. -/
def isShort : Text → Bool
  | ['-', c] => c != '-'
  | _ => false

/-- Reads an option that is spelled out, with the value attached to it. -/
def readLong (flag : Flag) (spelling : Text) (attached : Option Text) :
    Except OptionFault Reading :=
  match flag.takesValue, attached with
  | true, some value => .ok ⟨[(flag.name, some value)], none⟩
  | true, none => .ok ⟨[], some (spelling, flag.name)⟩
  | false, some _ => .error (.hasValue spelling)
  | false, none => .ok ⟨[(flag.name, none)], none⟩

/-- Reads short options that share a dash. What follows one that takes a value is its value. -/
def readShort (flags : List Flag) : Text → Except OptionFault Reading
  | [] => .ok ⟨[], none⟩
  | c :: rest =>
      match find? flags ['-', c] with
      | none => .error (.unknown ['-', c])
      | some flag =>
          if flag.takesValue then
            .ok (if rest.isEmpty then ⟨[], some (['-', c], flag.name)⟩
              else ⟨[(flag.name, some rest)], none⟩)
          else (readShort flags rest).map fun reading =>
            { reading with given := (flag.name, none) :: reading.given }

/-- Reads an argument that begins with a dash. -/
def readOption (flags : List Flag) (argument : Text) : Except OptionFault Reading :=
  let spelling := argument.takeWhile (· != '=')
  let attached :=
    if spelling.length < argument.length then some (argument.drop (spelling.length + 1)) else none
  match if isShort spelling then none else find? flags spelling with
  | some flag => readLong flag spelling attached
  | none =>
      if Text.startsWith ['-', '-'] argument then .error (.unknown spelling)
      else readShort flags (argument.drop 1)

/-- The options and the positional arguments of a command. -/
structure Arguments where
  /-- The options in the order in which they were given. -/
  options : List Given
  /-- The positional arguments. -/
  positional : List Text
deriving DecidableEq, Repr

/-- Takes arguments apart. Where options may not follow positional arguments, everything from the
first positional argument on is left as it is. -/
def split (flags : List Flag) (mixed : Bool) : List Text → Except OptionFault Arguments
  | [] => .ok ⟨[], []⟩
  | argument :: rest =>
      if argument = ['-', '-'] then .ok ⟨[], rest⟩
      else if argument.head? = some '-' && argument.length > 1 then
        match readOption flags argument with
        | .error fault => .error fault
        | .ok ⟨given, none⟩ =>
            (split flags mixed rest).map fun found =>
              { found with options := given ++ found.options }
        | .ok ⟨given, some (spelling, name)⟩ =>
            match rest with
            | [] => .error (.noValue spelling)
            | value :: rest =>
                (split flags mixed rest).map fun found =>
                  { found with options := given ++ (name, some value) :: found.options }
      else if mixed then
        (split flags mixed rest).map fun found =>
          { found with positional := argument :: found.positional }
      else .ok ⟨[], argument :: rest⟩

namespace Arguments

/-- The names of the options, each once, in the order in which they were first given. -/
def names (arguments : Arguments) : List Text :=
  (arguments.options.map Prod.fst).eraseDups

/-- Whether an option was given. -/
def has (arguments : Arguments) (name : String) : Bool :=
  name.toList ∈ arguments.names

/-- The value of an option; if it was given more than once, the last one. -/
def value? (arguments : Arguments) (name : String) : Option Text :=
  (arguments.options.reverse.lookup name.toList).join

end Arguments

end Command

end IdlFormat
