import IdlFormat.Text.Basic

/-!
# File name patterns

In a pattern, `*` stands for any text, `?` for any character, and `[...]` for one character of a set
or, after `!`, not of it. Everything else stands for itself, and so does a `[` that is never closed.

A hyphen between two characters of a set makes a range. A range that runs backwards is empty and is
taken out of the set together with its ends; what is left is then read as if it had been written so.
-/

namespace IdlFormat

namespace Glob

/-- A part of a pattern. -/
inductive Item where
  /-- Any text. -/
  | run
  /-- Any character. -/
  | any
  /-- One character. -/
  | char (c : Char)
  /-- A character in one of the ranges, or in none of them. -/
  | oneOf (negated : Bool) (ranges : List (Char × Char))
deriving DecidableEq, Repr

/-- A symbol in a set: a character or a hyphen that makes a range. -/
inductive Symbol where
  /-- A character. -/
  | char (c : Char)
  /-- A hyphen between the ends of a range. -/
  | through
deriving DecidableEq, Repr

/-- Cuts the inside of a set at its hyphens, where `chunk` is the chunk in progress, last character
first, and `needed` is the least number of characters that it still needs. Neighbouring chunks meet
in a range. -/
def chunksFrom (needed : Nat) (chunk : Text) : Text → List Text
  | [] => [chunk.reverse]
  | c :: rest =>
      if c = '-' && needed = 0 then chunk.reverse :: chunksFrom 2 [] rest
      else chunksFrom (needed - 1) (c :: chunk) rest

/-- Turns a hyphen with nothing after it into a character. -/
def keepLastHyphen : List Text → List Text
  | [] => []
  | [chunk, []] => [chunk ++ ['-']]
  | chunk :: others => chunk :: keepLastHyphen others

/-- The chunks of the inside of a set. -/
def chunks (inside : Text) : List Text :=
  keepLastHyphen (chunksFrom (if inside.head? = some '!' then 2 else 1) [] inside)

/-- Puts a chunk before others. Where the range between it and the next one runs backwards, the two
are merged without its ends. -/
def joinChunk (chunk : Text) : List Text → List Text
  | [] => [chunk]
  | next :: others =>
      match chunk.getLast?, next.head? with
      | some low, some high =>
          if high.toNat < low.toNat then (chunk.dropLast ++ next.drop 1) :: others
          else chunk :: next :: others
      | _, _ => chunk :: next :: others

/-- The symbols that chunks write. -/
def symbols : List Text → List Symbol
  | [] => []
  | [chunk] => chunk.map .char
  | chunk :: others => chunk.map .char ++ .through :: symbols others

/-- The ranges that symbols write; a hyphen without a start is a character. -/
def ranges : List Symbol → List (Char × Char)
  | [] => []
  | .through :: rest => ('-', '-') :: ranges rest
  | [.char c] => [(c, c)]
  | .char low :: .through :: .char high :: rest => (low, high) :: ranges rest
  | .char c :: rest => (c, c) :: ranges rest

/-- The set with the given inside. -/
def setOf (inside : Text) : Item :=
  match symbols ((chunks inside).foldr joinChunk []) with
  | .char '!' :: rest => .oneOf true (ranges rest)
  | rest => .oneOf false (ranges rest)

/-- The inside of the set whose `[` stands before the text, and what follows its `]`. The first
character of the set may be a `]` itself. -/
def cutSet? (text : Text) : Option (Text × Text) :=
  let lead :=
    match text with
    | '!' :: ']' :: _ => 2
    | '!' :: _ => 1
    | ']' :: _ => 1
    | _ => 0
  let inside := text.take lead ++ (text.drop lead).takeWhile (· != ']')
  match (text.drop lead).dropWhile (· != ']') with
  | [] => none
  | _ :: rest => some (inside, rest)

/-- Reads a pattern; the fuel bounds the number of its parts. -/
def parseFrom : (fuel : Nat) → Text → List Item
  | 0, _ => []
  | _, [] => []
  | fuel + 1, c :: rest =>
      if c = '*' then .run :: parseFrom fuel rest
      else if c = '?' then .any :: parseFrom fuel rest
      else if c = '[' then
        match cutSet? rest with
        | some (inside, after) => setOf inside :: parseFrom fuel after
        | none => .char c :: parseFrom fuel rest
      else .char c :: parseFrom fuel rest

/-- Reads a pattern. -/
def parse (pattern : Text) : List Item :=
  parseFrom pattern.length pattern

/-- Whether a part of a pattern stands for a character. -/
def Item.accepts : Item → Char → Bool
  | .run, _ => false
  | .any, _ => true
  | .char expected, c => c = expected
  | .oneOf negated ranges, c =>
      negated != ranges.any fun (low, high) => low.toNat ≤ c.toNat && c.toNat ≤ high.toNat

/-- Whether some end of a text is accepted. -/
def acceptsEnd (accepts : Text → Bool) : Text → Bool
  | [] => accepts []
  | c :: rest => accepts (c :: rest) || acceptsEnd accepts rest

/-- Whether the parts of a pattern stand for a text. -/
def accepts : List Item → Text → Bool
  | [], text => text.isEmpty
  | .run :: items, text => acceptsEnd (accepts items) text
  | _ :: _, [] => false
  | item :: items, c :: rest => item.accepts c && accepts items rest

end Glob

/-- Whether a pattern stands for a text. -/
def Glob.isMatch (pattern text : Text) : Bool :=
  Glob.accepts (Glob.parse pattern) text

end IdlFormat
