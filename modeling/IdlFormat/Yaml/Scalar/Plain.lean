import IdlFormat.Yaml.Scalar.Basic

/-!
# Plain scalars

A plain scalar ends before a comment, before a colon that white space follows, before a tab, and in
a flow collection before the marks of such collections. In a block it also ends before a line that
is not indented enough.
-/

namespace IdlFormat

namespace Yaml

namespace Plain

/-- The marks that end a plain scalar in a flow collection. -/
def isFlowMark (c : Char) : Bool :=
  c ∈ [',', '?', '[', ']', '\x7b', '\x7d']

/-- The marks of flow collections that may follow a colon directly. -/
def followsColon (c : Char) : Bool :=
  c ∈ [',', '[', ']', '\x7b', '\x7d']

/-- Whether a plain scalar ends before a character. -/
def stopsBefore (flow : Bool) (c : Char) (rest : Text) : Bool :=
  isSpace c || (flow && isFlowMark c) ||
    (c = ':' && (atSpace rest || (flow && rest.head?.any followsColon)))

/-- The number of characters until a plain scalar is interrupted. -/
def runLength (flow : Bool) : Text → Nat
  | [] => 0
  | c :: rest => if stopsBefore flow c rest then 0 else runLength flow rest + 1

/-- Whether a plain scalar may begin here. -/
def canStart (flow : Bool) : Text → Bool
  | [] => false
  | c :: rest =>
      if c = '-' then !atSpace rest
      else if c = '?' || c = ':' then !flow && !atSpace rest
      else !isSpace c &&
        c ∉ [',', '[', ']', '\x7b', '\x7d', '#', '&', '*', '!', '|', '>', '\'', '"', '%', '@',
          '\x60']

/-- What stands between two parts of a plain scalar. -/
structure Gap where
  /-- What the gap stands for; nothing, if the scalar ends here. -/
  text : Text
  /-- Whether it has line breaks. -/
  crossed : Bool
  /-- What follows it. -/
  cursor : Cursor
deriving DecidableEq, Repr

/-- The gap from a line break on; `breaks` are the line breaks before, last one first, and the fuel
bounds their number. A mark that starts or ends documents ends every scalar. -/
def gapFrom : (fuel : Nat) → (breaks : Text) → Cursor → Gap
  | 0, breaks, cursor => ⟨fold breaks.reverse, true, cursor⟩
  | fuel + 1, breaks, cursor =>
      let breaks := (cursor.rest.take 1) ++ breaks
      let line := cursor.next
      if line.atMarker then ⟨[], true, line⟩
      else
        let reached := line.skipWhile (· = ' ')
        if reached.atBreak then gapFrom fuel breaks reached
        else ⟨fold breaks.reverse, true, reached⟩

/-- The gap that comes next. -/
def gap (cursor : Cursor) : Gap :=
  let spaces := cursor.rest.takeWhile (· = ' ')
  let reached := cursor.forward spaces.length
  if reached.atBreak then gapFrom reached.rest.length [] reached else ⟨spaces, false, reached⟩

/-- Reads a plain scalar that continues on lines from column `margin` on, or on any line in a flow
collection. Here `taken` is what was read so far and `between` the gap after it, and the fuel bounds
the number of parts. -/
def read (flow : Bool) (margin : Int) : (fuel : Nat) → (taken : Text) → (between : Gap) → Scalar
  | 0, taken, between => ⟨taken, .plain, between.crossed, between.cursor⟩
  | fuel + 1, taken, between =>
      let count := runLength flow between.cursor.rest
      if count = 0 then ⟨taken, .plain, between.crossed, between.cursor⟩
      else
        let text := taken ++ between.text ++ between.cursor.rest.take count
        let following := gap (between.cursor.forward count)
        let stops := following.text.isEmpty || following.cursor.rest.head? = some '#' ||
          (!flow && following.cursor.column < margin)
        if stops then ⟨text, .plain, following.crossed, following.cursor⟩
        else read flow margin fuel text following

end Plain

/-- Reads the plain scalar that comes next. -/
def plainScalar (flow : Bool) (margin : Int) (cursor : Cursor) : Scalar :=
  Plain.read flow margin cursor.rest.length [] ⟨[], false, cursor⟩

end Yaml

end IdlFormat
