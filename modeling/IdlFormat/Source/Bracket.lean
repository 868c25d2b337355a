import IdlFormat.Source.Literal

/-!
# Brackets

Brackets count only outside literals. This file finds the square bracket that closes a block, counts
the square brackets a text leaves open, and cuts a text at the separators that no bracket encloses.
Openers and closers of each kind are counted apart from the other kinds, so brackets of different
kinds need not be nested properly, and a count may be negative.
-/

namespace IdlFormat

/-- The kinds of brackets that can enclose a separator. -/
inductive Bracket where
  /-- `(` and `)` -/
  | round
  /-- `<` and `>` -/
  | angle
  /-- `[` and `]` -/
  | square
deriving DecidableEq, Repr

namespace Bracket

/-- The opening bracket of a kind. -/
def opener : Bracket → Char
  | round => '('
  | angle => '<'
  | square => '['

/-- The closing bracket of a kind. -/
def closer : Bracket → Char
  | round => ')'
  | angle => '>'
  | square => ']'

/-- The kind that a character opens. -/
def ofOpener? (c : Char) : Option Bracket :=
  [round, angle, square].find? fun bracket => bracket.opener = c

/-- The kinds that a list of opening brackets names; the first character that opens none is
refused. -/
def ofOpeners (openers : Text) : Except Char (List Bracket) :=
  openers.mapM fun c =>
    match ofOpener? c with
    | some bracket => .ok bracket
    | none => .error c

/-- All three kinds. -/
def all : List Bracket := [round, angle, square]

/-- The part of a text up to and including the `]` that closes its first `[`, and what follows. The
whole text is taken if there is no such `]`. Here `depth` counts the brackets open before the
text. -/
def cutClosed (state : Literal.State) (depth : Int) : Text → Text × Text
  | [] => ([], [])
  | c :: rest =>
      let visible := state.reveals c
      if visible && c = ']' && depth = 1 then ([c], rest)
      else
        let depth :=
          if visible && c = '[' then depth + 1 else if visible && c = ']' then depth - 1 else depth
        let (taken, after) := cutClosed (state.next c) depth rest
        (c :: taken, after)

/-- The block that a text starts with, up to the `]` that closes it, and what follows. -/
def cutBlock (text : Text) : Text × Text :=
  cutClosed .outside 0 text

theorem cutClosed_append (state : Literal.State) (depth : Int) (text : Text) :
    (cutClosed state depth text).1 ++ (cutClosed state depth text).2 = text := by
  fun_induction cutClosed state depth text <;> simp_all

theorem length_cutBlock_lt (c : Char) (text : Text) :
    (cutBlock (c :: text)).2.length < (c :: text).length := by
  have parts := congrArg List.length (cutClosed_append .outside 0 (c :: text))
  have nonempty : (cutBlock (c :: text)).1 ≠ [] := by
    unfold cutBlock cutClosed
    simp only
    split <;> simp
  have := List.length_pos_iff.mpr nonempty
  simp only [List.length_append] at parts
  simp only [cutBlock] at this ⊢
  omega

/-- The number of `[` that a text leaves open; a `]` with nothing to close does not count. Here
`depth` counts the brackets open before the text. -/
def openDepthFrom (state : Literal.State) (depth : Nat) : Text → Nat
  | [] => depth
  | c :: rest =>
      let depth :=
        if state.reveals c && c = '[' then depth + 1
        else if state.reveals c && c = ']' then depth - 1
        else depth
      openDepthFrom (state.next c) depth rest

/-- The number of `[` that a text leaves open. -/
def openDepth (text : Text) : Nat :=
  openDepthFrom .outside 0 text

/-- For each kind, the openers seen less the closers seen. -/
structure Balance where
  /-- The count of round brackets. -/
  round : Int := 0
  /-- The count of angle brackets. -/
  angle : Int := 0
  /-- The count of square brackets. -/
  square : Int := 0
deriving DecidableEq, Repr

/-- Changes the count of one kind. -/
def Balance.add (balance : Balance) (bracket : Bracket) (change : Int) : Balance :=
  match bracket with
  | .round => { balance with round := balance.round + change }
  | .angle => { balance with angle := balance.angle + change }
  | .square => { balance with square := balance.square + change }

/-- Whether each kind has seen as many openers as closers. -/
def Balance.isZero (balance : Balance) : Bool :=
  balance.round = 0 && balance.angle = 0 && balance.square = 0

/-- The tracked kind that a character opens or closes, with the change of its count. -/
def change? (tracked : List Bracket) (c : Char) : Option (Bracket × Int) :=
  match tracked.find? fun bracket => bracket.opener = c with
  | some bracket => some (bracket, 1)
  | none => (tracked.find? fun bracket => bracket.closer = c).map (·, -1)

/-- Puts a character in front of the first piece. -/
def consFirst (c : Char) : List Text → List Text
  | [] => [[c]]
  | piece :: pieces => (c :: piece) :: pieces

/-- Cuts a text at the separators at which every tracked kind is balanced. -/
def splitFrom (isSeparator : Char → Bool) (tracked : List Bracket) (state : Literal.State)
    (balance : Balance) : Text → List Text
  | [] => [[]]
  | c :: rest =>
      if state.reveals c then
        match change? tracked c with
        | some (bracket, change) =>
            consFirst c
              (splitFrom isSeparator tracked (state.next c) (balance.add bracket change) rest)
        | none =>
            if isSeparator c && balance.isZero then
              [] :: splitFrom isSeparator tracked (state.next c) balance rest
            else consFirst c (splitFrom isSeparator tracked (state.next c) balance rest)
      else consFirst c (splitFrom isSeparator tracked (state.next c) balance rest)

/-- The pieces of a text between separators that no tracked bracket encloses, untrimmed and with the
empty ones. -/
def splitTopLevel (isSeparator : Char → Bool) (tracked : List Bracket) (text : Text) : List Text :=
  splitFrom isSeparator tracked .outside {} text

end Bracket

end IdlFormat
