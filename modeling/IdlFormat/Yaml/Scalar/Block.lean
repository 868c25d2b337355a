import IdlFormat.Text.Digit
import IdlFormat.Yaml.Scalar.Basic

/-!
# Block scalars

A block scalar has a header, which may give its indentation and say what becomes of the line breaks
at its end, and then its lines. A folded one joins lines that are not indented further, a literal
one keeps all line breaks.
-/

namespace IdlFormat

namespace Yaml

namespace Block

/-- What becomes of the line breaks at the end of a block. -/
inductive Chomping where
  /-- One is kept. -/
  | clip
  /-- None is kept. -/
  | strip
  /-- All are kept. -/
  | keep
deriving DecidableEq, Repr

/-- The header of a block. -/
structure Header where
  /-- What becomes of the line breaks at the end. -/
  chomping : Chomping := .clip
  /-- The indentation relative to the block around. -/
  increment : Option Nat := none
deriving DecidableEq, Repr

/-- The chomping that a character stands for. -/
def chomping? (c : Char) : Option Chomping :=
  if c = '+' then some .keep else if c = '-' then some .strip else none

/-- Takes one indicator of a header, if there is one that was not given before. -/
def indicator (header : Header) (cursor : Cursor) : Result (Header × Cursor) :=
  match cursor.rest with
  | [] => .ok (header, cursor)
  | c :: _ =>
      match chomping? c with
      | some chomping =>
          if header.chomping = .clip then .ok ({ header with chomping }, cursor.next)
          else .error .malformed
      | none =>
          if !c.isDigit then .ok (header, cursor)
          else if c = '0' || header.increment.isSome then .error .malformed
          else .ok ({ header with increment := some (c.toNat - '0'.toNat) }, cursor.next)

/-- Reads the header after its mark, with the comment that may follow it and the line break. -/
def header (cursor : Cursor) : Result (Header × Cursor) := do
  let (first, cursor) ← indicator {} cursor
  let (second, cursor) ← indicator first cursor
  let rest := (cursor.skipWhile (· = ' ')).skipComment
  if cursor.rest.head?.all fun c => c = ' ' || isBreak c then
    if rest.atLineEnd then return (second, rest.next) else throw .malformed
  else throw .malformed

/-- Passes over the empty lines at the start of a block: the line breaks, last one first, the
greatest column that was reached, and what follows. -/
def leading : (fuel : Nat) → (breaks : Text) → (widest : Nat) → Cursor → Text × Nat × Cursor
  | 0, breaks, widest, cursor => (breaks, widest, cursor)
  | fuel + 1, breaks, widest, cursor =>
      match cursor.rest with
      | [] => (breaks, widest, cursor)
      | c :: _ =>
          if isBreak c then leading fuel (normalBreak c :: breaks) widest cursor.next
          else if c = ' ' then leading fuel breaks (max widest cursor.next.column) cursor.next
          else (breaks, widest, cursor)

/-- Passes over the spaces of an indentation. -/
def skipIndent (indent : Nat) (cursor : Cursor) : Cursor :=
  cursor.forward ((cursor.rest.take (indent - cursor.column)).takeWhile (· = ' ')).length

/-- Passes over empty lines: the line breaks, last one first, and what follows. -/
def emptyLines (indent : Nat) : (fuel : Nat) → (breaks : Text) → Cursor → Text × Cursor
  | 0, breaks, cursor => (breaks, cursor)
  | fuel + 1, breaks, cursor =>
      let reached := skipIndent indent cursor
      match reached.rest with
      | [] => (breaks, reached)
      | c :: _ =>
          if isBreak c then emptyLines indent fuel (normalBreak c :: breaks) reached.next
          else (breaks, reached)

/-- Whether a line of the block comes next. -/
def atLine (indent : Nat) (cursor : Cursor) : Bool :=
  cursor.column = indent && !cursor.atEnd

/-- Whether a line begins with a blank. -/
def isIndented (cursor : Cursor) : Bool :=
  cursor.rest.head?.any fun c => c = ' ' || c = '\t'

/-- What is read of a block: its text, the line break after it, the line breaks after that, last one
first, and what follows. -/
structure Body where
  /-- The text so far. -/
  text : Text
  /-- The line break after the text, unless the document ends there. -/
  lineBreak : Text
  /-- The line breaks of empty lines after it. -/
  breaks : Text
  /-- What follows. -/
  cursor : Cursor
deriving DecidableEq, Repr

/-- Reads the lines of a block; the fuel bounds their number. -/
def lines (folded : Bool) (indent : Nat) : (fuel : Nat) → Body → Body
  | 0, body => body
  | fuel + 1, body =>
      if atLine indent body.cursor then
        let line := body.cursor.rest.takeWhile (!isBreak ·)
        let reached := body.cursor.forward line.length
        let lineBreak := (reached.rest.take 1).map normalBreak
        let (breaks, following) := emptyLines indent (reached.rest.length + 1) [] reached.next
        let text := body.text ++ body.breaks.reverse ++ line
        let joins :=
          folded && lineBreak = ['\n'] && !isIndented body.cursor && !isIndented following
        let between := if !joins then lineBreak else if breaks.isEmpty then [' '] else []
        if atLine indent following then
          lines folded indent fuel ⟨text ++ between, lineBreak, breaks, following⟩
        else ⟨text, lineBreak, breaks, following⟩
      else body

/-- The end of a block. -/
def Chomping.ending (chomping : Chomping) (body : Body) : Text :=
  match chomping with
  | .clip => body.lineBreak
  | .strip => []
  | .keep => body.lineBreak ++ body.breaks.reverse

end Block

/-- Reads the block scalar that comes next, after its mark, inside a block in a column. -/
def blockScalar (folded : Bool) (around : Int) (cursor : Cursor) : Result Scalar := do
  let (header, start) ← Block.header cursor
  let least := max 1 (around + 1).toNat
  let fuel := start.rest.length + 1
  let (breaks, indent, cursor) :=
    match header.increment with
    | some increment =>
        let indent := least + increment - 1
        let (breaks, cursor) := Block.emptyLines indent fuel [] start
        (breaks, indent, cursor)
    | none =>
        let (breaks, widest, cursor) := Block.leading fuel [] 0 start
        (breaks, max least widest, cursor)
  let body := Block.lines folded indent fuel ⟨[], [], breaks, cursor⟩
  return ⟨body.text ++ header.chomping.ending body, .marked, false, body.cursor⟩

end Yaml

end IdlFormat
