import IdlFormat.Diff.Match

/-!
# Unified diffs

A diff shows the lines that were removed and added, with up to three lines around them that stayed.
Changes with few lines between them share a hunk.
-/

namespace IdlFormat

namespace Diff

/-- A part of both texts whose lines all stayed or all changed. -/
structure Stretch where
  /-- Whether the lines stayed. -/
  kept : Bool
  /-- The lines. -/
  window : Window
deriving DecidableEq, Repr

/-- The stretches of two texts from the given lines on, where `blocks` are the runs that they
share. -/
def stretchesFrom (left right leftEnd rightEnd : Nat) : List Block → List Stretch
  | [] =>
      if left < leftEnd || right < rightEnd then [⟨false, ⟨left, leftEnd, right, rightEnd⟩⟩] else []
  | block :: blocks =>
      let changed : List Stretch :=
        if left < block.left || right < block.right then
          [⟨false, ⟨left, block.left, right, block.right⟩⟩]
        else []
      let leftStop := block.left + block.size
      let rightStop := block.right + block.size
      changed ++ ⟨true, ⟨block.left, leftStop, block.right, rightStop⟩⟩ ::
        stretchesFrom leftStop rightStop leftEnd rightEnd blocks

/-- The number of lines around a change that are shown. -/
def context : Nat := 3

/-- The last lines of a stretch that stayed. -/
def Stretch.ending (stretch : Stretch) : Stretch :=
  let window := stretch.window
  { stretch with window :=
      { window with
        leftStart := max window.leftStart (window.leftStop - context)
        rightStart := max window.rightStart (window.rightStop - context) } }

/-- The first lines of a stretch that stayed. -/
def Stretch.beginning (stretch : Stretch) : Stretch :=
  let window := stretch.window
  { stretch with window :=
      { window with
        leftStop := min window.leftStop (window.leftStart + context)
        rightStop := min window.rightStop (window.rightStart + context) } }

/-- Shortens a stretch that stayed at the start of the texts. -/
def shortenFirst : List Stretch → List Stretch
  | [] => []
  | first :: others => (if first.kept then first.ending else first) :: others

/-- Shortens a stretch that stayed at the end of the texts. -/
def shortenLast : List Stretch → List Stretch
  | [] => []
  | [last] => [if last.kept then last.beginning else last]
  | stretch :: others => stretch :: shortenLast others

/-- Whether a stretch that stayed is long enough to end a hunk. -/
def Stretch.divides (stretch : Stretch) : Bool :=
  stretch.kept && 2 * context < stretch.window.leftStop - stretch.window.leftStart

/-- Groups stretches into hunks; `hunk` is the hunk in progress, last stretch first. -/
def hunksFrom (hunk : List Stretch) : List Stretch → List (List Stretch)
  | [] => [hunk.reverse]
  | stretch :: others =>
      if stretch.divides then
        (stretch.beginning :: hunk).reverse :: hunksFrom [stretch.ending] others
      else hunksFrom (stretch :: hunk) others

/-- The hunks of a diff: groups of stretches that are not all kept. -/
def hunks (stretches : List Stretch) : List (List Stretch) :=
  (hunksFrom [] (shortenLast (shortenFirst stretches))).filter fun hunk =>
    hunk.any fun stretch => !stretch.kept

/-- The lines from a start up to a stop, as a hunk names them. -/
def rangeText (start stop : Nat) : Text :=
  let count := stop - start
  if count = 1 then Text.ofNat (start + 1)
  else Text.ofNat (if count = 0 then start else start + 1) ++ [','] ++ Text.ofNat count

/-- The lines from a start up to a stop, with a mark before each. -/
def marked (mark : Char) (lines : List Text) (start stop : Nat) : Text :=
  ((lines.drop start).take (stop - start)).flatMap fun line => mark :: line

/-- A stretch as a diff shows it. -/
def Stretch.render (left right : List Text) (stretch : Stretch) : Text :=
  let window := stretch.window
  if stretch.kept then marked ' ' left window.leftStart window.leftStop
  else
    marked '-' left window.leftStart window.leftStop ++
      marked '+' right window.rightStart window.rightStop

/-- A hunk as a diff shows it. -/
def renderHunk (left right : List Text) (hunk : List Stretch) : Text :=
  match hunk.head?, hunk.getLast? with
  | some first, some last =>
      "@@ -".toList ++ rangeText first.window.leftStart last.window.leftStop ++ " +".toList ++
        rangeText first.window.rightStart last.window.rightStop ++ " @@\n".toList ++
        hunk.flatMap (Stretch.render left right)
  | _, _ => []

/-- The diff of two texts, given as lines with their breaks; texts without differences have an empty
one. -/
def unified (leftName rightName : Text) (left right : List Text) : Text :=
  let stretches := stretchesFrom 0 0 left.length right.length (blocks left right)
  match hunks stretches with
  | [] => []
  | found =>
      "--- ".toList ++ leftName ++ "\n+++ ".toList ++ rightName ++ ['\n'] ++
        found.flatMap (renderHunk left right)

end Diff

end IdlFormat
