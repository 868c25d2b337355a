import IdlFormat.Text.Digit
import IdlFormat.Text.Utf8
import IdlFormat.Yaml.Scalar.Basic

/-!
# Names

Anchors and aliases are named by words. Tags are named by a handle and a suffix, where the handle
stands for what a directive gives; directives come before a document.
-/

namespace IdlFormat

namespace Yaml

/-- The characters of words. -/
def isWordMark (c : Char) : Bool :=
  c.isAlphanum || c = '-' || c = '_'

/-- Whether a space, a line break or the end comes next; a tab does not count. -/
def atGap (cursor : Cursor) : Bool :=
  cursor.rest.head?.all fun c => c = ' ' || isBreak c

/-- Takes a word that must not be empty. -/
def word (cursor : Cursor) : Result (Text × Cursor) :=
  let name := cursor.rest.takeWhile isWordMark
  if name.isEmpty then .error .malformed else .ok (name, cursor.forward name.length)

/-- The characters that may follow the name of an anchor or alias. -/
def endsName (c : Char) : Bool :=
  isSpace c || c ∈ ['?', ':', ',', ']', '\x7d', '%', '@', '\x60']

/-- Reads the name of an anchor or alias, after its mark. -/
def anchorName (cursor : Cursor) : Result (Text × Cursor) := do
  let (name, rest) ← word cursor
  if rest.rest.head?.all endsName then return (name, rest) else throw .malformed

/-- A tag as it is written. -/
structure TagName where
  /-- The handle; a tag without one is complete. -/
  handle : Option Text
  /-- What follows the handle. -/
  suffix : Text
deriving DecidableEq, Repr

namespace TagName

/-- The characters of a suffix or an expansion, escapes apart. -/
def isUriChar (c : Char) : Bool :=
  c.isAlphanum || c ∈ "-;/?:@&=+$,_.!~*'()[]".toList

/-- The bytes of the escapes that come next, and the number of escapes. -/
def escapedBytes? : Text → Option (Bytes × Nat)
  | '%' :: high :: low :: rest => do
      let byte := (← hexDigit? high) * 16 + (← hexDigit? low)
      let (bytes, count) ← escapedBytes? rest
      return (byte.toUInt8 :: bytes, count + 1)
  | '%' :: _ => none
  | _ => some ([], 0)

/-- Reads a suffix or an expansion; `taken` is what was read so far, and the fuel bounds the number
of its parts. -/
def uriFrom : (fuel : Nat) → (taken : Text) → Cursor → Result (Text × Cursor)
  | 0, _, _ => .error .malformed
  | fuel + 1, taken, cursor =>
      match cursor.rest with
      | [] => .ok (taken, cursor)
      | c :: _ =>
          if c = '%' then
            match escapedBytes? cursor.rest with
            | none => .error .malformed
            | some (bytes, count) =>
                match Utf8.decode bytes with
                | .ok text => uriFrom fuel (taken ++ text) (cursor.forward (3 * count))
                | .error _ => .error .malformed
          else if isUriChar c then uriFrom fuel (taken ++ [c]) cursor.next
          else .ok (taken, cursor)

/-- Reads a suffix or an expansion, which must not be empty. -/
def uri (cursor : Cursor) : Result (Text × Cursor) :=
  if cursor.rest.head?.any fun c => c = '%' || isUriChar c then
    uriFrom (cursor.rest.length + 1) [] cursor
  else .error .malformed

/-- Reads a handle: an exclamation mark, or a word between two of them. -/
def readHandle (cursor : Cursor) : Result (Text × Cursor) :=
  match cursor.rest with
  | '!' :: ' ' :: _ => .ok (['!'], cursor.next)
  | '!' :: rest =>
      let name := rest.takeWhile isWordMark
      if (rest.drop name.length).head? = some '!' then
        .ok ('!' :: name ++ ['!'], cursor.forward (name.length + 2))
      else .error .malformed
  | _ => .error .malformed

/-- Reads a tag that is not complete: with a handle if a second exclamation mark follows before the
next gap. -/
def relative (cursor : Cursor) : Result (TagName × Cursor) := do
  let shown := (cursor.rest.drop 1).takeWhile fun c => !(c = ' ' || isBreak c)
  let (handle, start) ← if shown.contains '!' then readHandle cursor else .ok (['!'], cursor.next)
  let (suffix, rest) ← uri start
  return (⟨some handle, suffix⟩, rest)

/-- Reads a complete tag, after its opening bracket. -/
def complete (cursor : Cursor) : Result (TagName × Cursor) := do
  let (suffix, rest) ← uri cursor
  if rest.rest.head? = some '>' then return (⟨none, suffix⟩, rest.next) else throw .malformed

/-- Reads the tag that comes next. -/
def read (cursor : Cursor) : Result (TagName × Cursor) := do
  let after := cursor.rest.drop 1
  let (name, rest) ←
    if after.head? = some '<' then complete (cursor.forward 2)
    else if atSpace after then .ok (⟨none, ['!']⟩, cursor.next)
    else relative cursor
  if atGap rest then return (name, rest) else throw .malformed

end TagName

/-- A directive. -/
inductive Directive where
  /-- The version of the format: its major number. -/
  | version (major : Nat)
  /-- What a handle stands for. -/
  | handle (name expansion : Text)
  /-- A directive that says nothing. -/
  | other
deriving DecidableEq, Repr

namespace Directive

/-- Reads a number. -/
def number (cursor : Cursor) : Result (Nat × Cursor) :=
  let digits := cursor.rest.takeWhile Char.isDigit
  if digits.isEmpty then .error .malformed
  else match Numeral.ofDigits digits with
    | .ok number => .ok (number, cursor.forward digits.length)
    | .error excess => .error (.badInteger (.tooLong excess))

/-- Reads the version that a directive gives. -/
def versionNumber (cursor : Cursor) : Result (Directive × Cursor) := do
  let (major, point) ← number (cursor.skipWhile (· = ' '))
  if point.rest.head? != some '.' then throw .malformed
  let (_, rest) ← number point.next
  if atGap rest then return (.version major, rest) else throw .malformed

/-- Reads the handle that a directive gives, and what it stands for. -/
def handleExpansion (cursor : Cursor) : Result (Directive × Cursor) := do
  let (name, between) ← TagName.readHandle (cursor.skipWhile (· = ' '))
  if between.rest.head? != some ' ' then throw .malformed
  let (expansion, rest) ← TagName.uri (between.skipWhile (· = ' '))
  if atGap rest then return (.handle name expansion, rest) else throw .malformed

/-- Reads the directive that comes next, with the comment that may follow it and the line break. -/
def read (cursor : Cursor) : Result (Directive × Cursor) := do
  let (name, start) ← word cursor.next
  if !atGap start then throw .malformed
  let (directive, rest) ←
    if name = "YAML".toList then versionNumber start
    else if name = "TAG".toList then handleExpansion start
    else .ok (.other, start.skipWhile (!isBreak ·))
  let ending := (rest.skipWhile (· = ' ')).skipComment
  if ending.atLineEnd then return (directive, ending.next) else throw .malformed

end Directive

end Yaml

end IdlFormat
