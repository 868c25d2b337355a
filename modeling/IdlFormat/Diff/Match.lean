import IdlFormat.Text.Basic

/-!
# Matching lines

Two texts are compared by the longest run of lines that they share; what stands before it and what
stands after it is compared in the same way. Of several longest runs the one that begins first in
the left text is taken, and of those the one that begins first in the right text.

In a long right text, lines that occur very often are no starting points for a match, although a
match found elsewhere extends over them.
-/

namespace IdlFormat

namespace Diff

/-- A run of lines that two texts share. -/
structure Block where
  /-- Where the run begins in the left text. -/
  left : Nat
  /-- Where the run begins in the right text. -/
  right : Nat
  /-- The number of lines of the run. -/
  size : Nat
deriving DecidableEq, Repr

/-- A part of both texts: the lines from a start up to a stop. -/
structure Window where
  /-- The first line of the left part. -/
  leftStart : Nat
  /-- The line after the left part. -/
  leftStop : Nat
  /-- The first line of the right part. -/
  rightStart : Nat
  /-- The line after the right part. -/
  rightStop : Nat
deriving DecidableEq, Repr

/-- Two texts that are compared. -/
structure Pair where
  /-- The lines of the left text. -/
  left : Array Text
  /-- The lines of the right text. -/
  right : Array Text
  /-- For each line of the left text, where it occurs in the right text as a starting point. -/
  starts : Array (List Nat)

/-- The right text is long from this number of lines on. -/
def longText : Nat := 200

/-- The number of occurrences that a line of a long text may have to be a starting point. -/
def occurrenceLimit (lines : Nat) : Nat :=
  lines / 100 + 1

/-- Where a line occurs in a list of lines. -/
def occurrences (line : Text) (lines : List Text) : List Nat :=
  (lines.zipIdx.filter fun (other, _) => other = line).map Prod.snd

/-- Where a line occurs as a starting point. -/
def startingPoints (lines : List Text) (line : Text) : List Nat :=
  let found := occurrences line lines
  if longText ≤ lines.length && occurrenceLimit lines.length < found.length then [] else found

/-- Two texts, made ready for comparing. -/
def Pair.ofLines (left right : List Text) : Pair where
  left := left.toArray
  right := right.toArray
  starts := (left.map (startingPoints right)).toArray

/-- The window on all of two texts. -/
def Pair.window (pair : Pair) : Window :=
  ⟨0, pair.left.size, 0, pair.right.size⟩

/-- Whether a line of the left text equals a line of the right text. -/
def Pair.agree (pair : Pair) (left right : Nat) : Bool :=
  match pair.left[left]?, pair.right[right]? with
  | some line, some other => line = other
  | _, _ => false

/-- The lengths of the runs that end at a line of the left text, by their last line in the right
text, together with the best run so far. -/
structure Row where
  /-- The lengths of the runs. -/
  lengths : List (Nat × Nat)
  /-- The best run so far. -/
  best : Block

/-- The length of the run that ends right before a line. -/
def lengthBefore (lengths : List (Nat × Nat)) : Nat → Nat
  | 0 => 0
  | right + 1 => (lengths.lookup right).getD 0

/-- The best of a run and another one that is `size` long and ends at the given lines. -/
def better (best : Block) (left right size : Nat) : Block :=
  if best.size < size then ⟨left + 1 - size, right + 1 - size, size⟩ else best

/-- The row of the next line of the left text. -/
def Row.next (pair : Pair) (window : Window) (row : Row) (left : Nat) : Row :=
  let ends := ((pair.starts[left]?).getD []).filter fun right =>
    window.rightStart ≤ right && right < window.rightStop
  let lengths := ends.map fun right => (right, lengthBefore row.lengths right + 1)
  { lengths
    best := lengths.foldl (fun best (right, size) => better best left right size) row.best }

/-- Extends a run backwards while the lines agree. -/
def extendBack (pair : Pair) (window : Window) : (fuel : Nat) → Block → Block
  | 0, block => block
  | fuel + 1, block =>
      if window.leftStart < block.left && window.rightStart < block.right &&
          pair.agree (block.left - 1) (block.right - 1) then
        extendBack pair window fuel ⟨block.left - 1, block.right - 1, block.size + 1⟩
      else block

/-- Extends a run forwards while the lines agree. -/
def extendOn (pair : Pair) (window : Window) : (fuel : Nat) → Block → Block
  | 0, block => block
  | fuel + 1, block =>
      if block.left + block.size < window.leftStop && block.right + block.size < window.rightStop &&
          pair.agree (block.left + block.size) (block.right + block.size) then
        extendOn pair window fuel { block with size := block.size + 1 }
      else block

/-- The longest run that the two parts of a window share. -/
def longest (pair : Pair) (window : Window) : Block :=
  let count := window.leftStop - window.leftStart
  let rows := (List.range' window.leftStart count).foldl (Row.next pair window)
    ⟨[], ⟨window.leftStart, window.rightStart, 0⟩⟩
  extendOn pair window count (extendBack pair window count rows.best)

/-- The runs that the two parts of a window share, in order; the fuel bounds how often the window is
divided. -/
def blocksFrom (pair : Pair) : (fuel : Nat) → Window → List Block
  | 0, _ => []
  | fuel + 1, window =>
      if window.leftStart < window.leftStop && window.rightStart < window.rightStop then
        let block := longest pair window
        if block.size = 0 then []
        else
          blocksFrom pair fuel
              ⟨window.leftStart, block.left, window.rightStart, block.right⟩ ++
            block ::
              blocksFrom pair fuel
                ⟨block.left + block.size, window.leftStop, block.right + block.size,
                  window.rightStop⟩
      else []

/-- Joins runs that follow each other in both texts. -/
def joinBlocks : List Block → List Block
  | [] => []
  | block :: blocks =>
      match joinBlocks blocks with
      | [] => [block]
      | next :: others =>
          if block.left + block.size = next.left && block.right + block.size = next.right then
            { block with size := block.size + next.size } :: others
          else block :: next :: others

/-- The runs that two texts share, in order. -/
def blocks (left right : List Text) : List Block :=
  let pair := Pair.ofLines left right
  joinBlocks (blocksFrom pair (left.length + 1) pair.window)

end Diff

end IdlFormat
