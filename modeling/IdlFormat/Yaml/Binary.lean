import IdlFormat.Text.Utf8

/-!
# Binary data

Binary data is written as digits of base sixty-four, each of which gives six bits. Characters that
are no such digits do not count, apart from the padding at the end.
-/

namespace IdlFormat

namespace Yaml

namespace Binary

/-- The six bits that a digit of base sixty-four gives. -/
def sextet? (c : Char) : Option Nat :=
  if c.isUpper then some (c.toNat - 'A'.toNat)
  else if c.isLower then some (c.toNat - 'a'.toNat + 26)
  else if c.isDigit then some (c.toNat - '0'.toNat + 52)
  else if c = '+' then some 62
  else if c = '/' then some 63
  else none

/-- The digits of a text, of which `count` stand before it and `pads` signs of padding after these.
Four of them belong together, and padding stands for those that are missing at the end. -/
def sextets? (count pads : Nat) : Text → Option (List Nat)
  | [] => if count % 4 = 0 then some [] else none
  | c :: rest =>
      if c = '=' then
        if count % 4 < 2 then sextets? count pads rest
        else if 4 ≤ count % 4 + pads + 1 then some []
        else sextets? count (pads + 1) rest
      else match sextet? c with
        | some sextet => (sextets? (count + 1) 0 rest).map (sextet :: ·)
        | none => sextets? count pads rest

/-- The bytes that digits write. -/
def bytes : List Nat → Bytes
  | a :: b :: c :: d :: rest =>
      (a * 4 + b / 16).toUInt8 :: (b % 16 * 16 + c / 4).toUInt8 :: (c % 4 * 64 + d).toUInt8 ::
        bytes rest
  | [a, b, c] => [(a * 4 + b / 16).toUInt8, (b % 16 * 16 + c / 4).toUInt8]
  | [a, b] => [(a * 4 + b / 16).toUInt8]
  | _ => []

/-- Reads binary data. -/
def decode? (text : Text) : Option Bytes :=
  if text.all fun c => c.toNat < 0x80 then (sextets? 0 0 text).map bytes else none

end Binary

end Yaml

end IdlFormat
