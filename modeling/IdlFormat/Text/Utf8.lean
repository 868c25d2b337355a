import IdlFormat.Text.Quoted

/-!
# UTF-8

Texts are stored as bytes. Decoding is strict: overlong forms, surrogates and code points above
`U+10FFFF` are refused, and the fault tells the bytes that were read in vain. The decoder is a
machine that takes one byte at a time and keeps the sequence in progress.
-/

namespace IdlFormat

/-- Stored content. -/
abbrev Bytes := List UInt8

namespace Utf8

/-- The bytes of a character. -/
def encodeChar (c : Char) : Bytes :=
  let code := c.toNat
  if code < 0x80 then [code.toUInt8]
  else if code < 0x800 then [(0xC0 + code / 0x40).toUInt8, (0x80 + code % 0x40).toUInt8]
  else if code < 0x10000 then
    [(0xE0 + code / 0x1000).toUInt8, (0x80 + code / 0x40 % 0x40).toUInt8,
      (0x80 + code % 0x40).toUInt8]
  else
    [(0xF0 + code / 0x40000).toUInt8, (0x80 + code / 0x1000 % 0x40).toUInt8,
      (0x80 + code / 0x40 % 0x40).toUInt8, (0x80 + code % 0x40).toUInt8]

/-- The bytes of a text. -/
def encode (text : Text) : Bytes :=
  text.flatMap encodeChar

/-- Why bytes are no text. -/
inductive Reason where
  /-- No sequence begins with this byte. -/
  | invalidStart
  /-- The sequence goes on with a byte that cannot follow. -/
  | invalidContinuation
  /-- The sequence ends with the content. -/
  | truncated
deriving DecidableEq, Repr

/-- A sequence of bytes that writes no character. -/
structure Fault where
  /-- The number of bytes before the sequence. -/
  start : Nat
  /-- The bytes of the sequence that were accepted, or the byte that begins none. -/
  bytes : Bytes
  /-- What is wrong. -/
  reason : Reason
deriving DecidableEq, Repr

/-- The wording of a reason. -/
def Reason.message : Reason → Text
  | .invalidStart => "invalid start byte".toList
  | .invalidContinuation => "invalid continuation byte".toList
  | .truncated => "unexpected end of data".toList

/-- The report on a fault. -/
def Fault.message (fault : Fault) : Text :=
  let place :=
    match fault.bytes with
    | [byte] =>
        "byte 0x".toList ++ Text.hex 2 byte.toNat ++ " in position ".toList ++
          Text.ofNat fault.start
    | bytes =>
        "bytes in position ".toList ++ Text.ofNat fault.start ++ ['-'] ++
          Text.ofNat (fault.start + bytes.length - 1)
  "'utf-8' codec can't decode ".toList ++ place ++ [':', ' '] ++ fault.reason.message

/-- A sequence in progress. -/
structure Pending where
  /-- The code point so far. -/
  code : Nat
  /-- The ranges of the bytes that are still to come. -/
  expected : List (Nat × Nat)
  /-- The bytes so far. -/
  bytes : Bytes
deriving DecidableEq, Repr

/-- The range of a byte that continues a sequence. -/
def continuation : Nat × Nat := (0x80, 0xBF)

/-- The sequence that a byte begins: its share of the code point and the ranges of the bytes to
come. The second byte is restricted where a free one would write an overlong form, a surrogate or
too large a code point. -/
def sequence? (byte : Nat) : Option (Nat × List (Nat × Nat)) :=
  if byte < 0x80 then some (byte, [])
  else if byte < 0xC2 then none
  else if byte < 0xE0 then some (byte - 0xC0, [continuation])
  else if byte = 0xE0 then some (0, [(0xA0, 0xBF), continuation])
  else if byte = 0xED then some (0xD, [(0x80, 0x9F), continuation])
  else if byte < 0xF0 then some (byte - 0xE0, [continuation, continuation])
  else if byte = 0xF0 then some (0, [(0x90, 0xBF), continuation, continuation])
  else if byte < 0xF4 then some (byte - 0xF0, [continuation, continuation, continuation])
  else if byte = 0xF4 then some (4, [(0x80, 0x8F), continuation, continuation])
  else none

/-- What a byte does to a decoder that stands `position` bytes into the content: it completes a
character, or it leaves a sequence in progress. -/
def step (position : Nat) (pending : Option Pending) (byte : UInt8) :
    Except Fault (Option Char × Option Pending) :=
  match pending with
  | none =>
      match sequence? byte.toNat with
      | none => .error ⟨position, [byte], .invalidStart⟩
      | some (code, []) => .ok (some (Char.ofNat code), none)
      | some (code, expected) => .ok (none, some ⟨code, expected, [byte]⟩)
  | some ⟨code, expected, bytes⟩ =>
      let grown := code * 0x40 + byte.toNat % 0x40
      match expected with
      | [] => .ok (some (Char.ofNat code), none)
      | (low, high) :: later =>
          if byte.toNat < low || high < byte.toNat then
            .error ⟨position - bytes.length, bytes, .invalidContinuation⟩
          else if later.isEmpty then .ok (some (Char.ofNat grown), none)
          else .ok (none, some ⟨grown, later, bytes ++ [byte]⟩)

/-- Decodes the bytes that follow `position` others and maybe a sequence in progress. -/
def decodeFrom (position : Nat) (pending : Option Pending) : Bytes → Except Fault Text
  | [] =>
      match pending with
      | none => .ok []
      | some ⟨_, _, bytes⟩ => .error ⟨position - bytes.length, bytes, .truncated⟩
  | byte :: rest =>
      match step position pending byte with
      | .error fault => .error fault
      | .ok (some c, pending) => (decodeFrom (position + 1) pending rest).map (c :: ·)
      | .ok (none, pending) => decodeFrom (position + 1) pending rest

/-- The text that bytes write. -/
def decode (bytes : Bytes) : Except Fault Text :=
  decodeFrom 0 none bytes

/-- The number of bytes that come at once when content is read piece by piece. -/
def pieceSize : Nat := 8192

/-- Whether a byte continues a sequence. -/
def isContinuation (byte : UInt8) : Bool :=
  continuation.1 ≤ byte.toNat && byte.toNat ≤ continuation.2

/-- The number of bytes right before an offset that belong to a sequence which goes on there. -/
def carried (bytes : Bytes) (offset : Nat) : Nat :=
  if (bytes.drop offset).head?.any isContinuation then
    ((bytes.take offset).reverse.takeWhile isContinuation).length + 1
  else 0

/-- The fault as it is noticed when content comes piece by piece: its position counts from the start
of its piece, or of the sequence that was left over from the piece before. A sequence that the end
of the content cuts off is noticed only after everything before it was handed on. -/
def Fault.inPiece (bytes : Bytes) (fault : Fault) : Fault :=
  let noticed :=
    if fault.reason = .invalidContinuation then fault.start + fault.bytes.length else fault.start
  let piece := noticed / pieceSize * pieceSize
  let start :=
    if fault.reason = .truncated || fault.start ≤ piece then 0
    else fault.start - piece + carried bytes piece
  { fault with start }

/-- The text that bytes write when they come piece by piece. -/
def decodeStream (bytes : Bytes) : Except Fault Text :=
  (decode bytes).mapError (Fault.inPiece bytes)

end Utf8

end IdlFormat
