import IdlFormat.Text.Digit
import IdlFormat.Yaml.Scalar.Basic

/-!
# Quoted scalars

Between single quotes, two of them stand for one. Between double quotes, a backslash begins an
escape; one at the end of a line drops the line break.
-/

namespace IdlFormat

namespace Yaml

namespace Quoted

/-- What stands between two visible characters of a quoted scalar. -/
inductive Gap where
  /-- Blanks on one line, last one first. -/
  | blanks (text : Text)
  /-- Line breaks, last one first; `escaped` says that one before them was escaped. -/
  | breaks (escaped : Bool) (seen : Text)
deriving DecidableEq, Repr

/-- What a gap stands for. -/
def Gap.text : Gap → Text
  | .blanks text => text.reverse
  | .breaks true seen => seen.reverse.map normalBreak
  | .breaks false seen => fold seen.reverse

/-- The gap with one more blank or line break. -/
def Gap.extend (gap : Gap) (c : Char) : Gap :=
  match gap with
  | .blanks text => if isBreak c then .breaks false [c] else .blanks (c :: text)
  | .breaks escaped seen => if isBreak c then .breaks escaped (c :: seen) else gap

/-- The codes that a backslash and a letter stand for. -/
def escapes : List (Char × Nat) :=
  [('0', 0x00), ('a', 0x07), ('b', 0x08), ('t', 0x09), ('\t', 0x09), ('n', 0x0A), ('v', 0x0B),
    ('f', 0x0C), ('r', 0x0D), ('e', 0x1B), (' ', 0x20), ('"', 0x22), ('\\', 0x5C), ('/', 0x2F),
    ('N', 0x85), ('_', 0xA0), ('L', 0x2028), ('P', 0x2029)]

/-- The number of hexadecimal digits after a backslash and a letter. -/
def hexWidth? (c : Char) : Option Nat :=
  [('x', 2), ('u', 4), ('U', 8)].lookup c

/-- The code that an escape stands for, after its backslash, and the length of the escape. -/
def escape? : Text → Option (Nat × Nat)
  | [] => none
  | c :: rest =>
      match escapes.lookup c, hexWidth? c with
      | some code, _ => some (code, 1)
      | none, some width => do
          let digits ← (rest.take width).mapM hexDigit?
          guard (digits.length = width)
          return (digits.foldl (fun code digit => code * 16 + digit) 0, width + 1)
      | none, none => none

/-- Whether a code is half a surrogate pair. -/
def isHalf (code : Nat) : Bool :=
  0xD800 ≤ code && code ≤ 0xDFFF

/-- What was read of a quoted scalar. -/
structure State where
  /-- The characters, last one first. -/
  taken : Text := []
  /-- What follows them. -/
  gap : Gap := .blanks []
  /-- Whether they have half a surrogate pair among them, which is replaced. -/
  broken : Bool := false
deriving DecidableEq, Repr

/-- The characters with the gap after them, last one first. -/
def State.settled (state : State) : Text :=
  state.gap.text.reverse ++ state.taken

/-- The state after a visible character. -/
def State.push (state : State) (c : Char) : State :=
  { state with taken := c :: state.settled, gap := .blanks [] }

/-- The state after an escape. -/
def State.pushCode (state : State) (code : Nat) : Result State :=
  if isHalf code then .ok { state.push '\uFFFD' with broken := true }
  else if code < 0x110000 then .ok (state.push (Char.ofNat code))
  else .error (.badCode code)

/-- The cursor after a line break, where no document may start or end. -/
def afterBreak (cursor : Cursor) : Result Cursor :=
  if cursor.next.atMarker then .error .malformed else .ok cursor.next

/-- Reads the rest of a quoted scalar up to its closing quote; the fuel bounds the number of
steps. -/
def read (quote : Char) : (fuel : Nat) → State → Cursor → Result Scalar
  | 0, _, _ => .error .malformed
  | fuel + 1, state, cursor =>
      match cursor.rest with
      | [] => .error .malformed
      | c :: rest =>
          if isBreak c then do
            read quote fuel { state with gap := state.gap.extend c } (← afterBreak cursor)
          else if isSpace c then
            read quote fuel { state with gap := state.gap.extend c } cursor.next
          else if c = quote then
            if quote = '\'' && rest.head? = some '\'' then
              read quote fuel (state.push '\'') (cursor.forward 2)
            else
              let form := if state.broken then Scalar.Form.broken else .marked
              .ok ⟨state.settled.reverse, form, false, cursor.next⟩
          else if c = '\\' && quote = '"' then
            if rest.head?.any isBreak then do
              let settled := { state with taken := state.settled, gap := .breaks true [] }
              read quote fuel settled (← afterBreak cursor.next)
            else match escape? rest with
              | some (code, length) => do
                  read quote fuel (← state.pushCode code) (cursor.forward (length + 1))
              | none => .error .malformed
          else read quote fuel (state.push c) cursor.next

end Quoted

/-- Reads the quoted scalar that comes next. -/
def quotedScalar (quote : Char) (cursor : Cursor) : Result Scalar :=
  Quoted.read quote cursor.rest.length {} cursor.next

end Yaml

end IdlFormat
