import IdlFormat.Text.Basic

/-!
# Layout settings

A style is valid by construction: its width lies between 1 and 16 and its limit is positive.
-/

namespace IdlFormat

/-- The settings of the layout. -/
structure Style where
  /-- The number of spaces of one indentation level. -/
  indentWidth : Nat := 4
  /-- A single attribute shorter than this stays on the line of its brackets. -/
  inlineLimit : Nat := 60
  /-- A level indents. -/
  one_le_indentWidth : 1 ≤ indentWidth := by decide
  /-- A level does not indent by more than sixteen spaces. -/
  indentWidth_le_sixteen : indentWidth ≤ 16 := by decide
  /-- The limit is positive. -/
  inlineLimit_pos : 0 < inlineLimit := by decide
deriving DecidableEq, Repr

/-- The spaces in front of a line at a level; a negative level has none. -/
def Style.indent (style : Style) (level : Int) : Text :=
  List.replicate (style.indentWidth * level.toNat) ' '

end IdlFormat
