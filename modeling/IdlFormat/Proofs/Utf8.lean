import IdlFormat.Proofs.Mask
import IdlFormat.Text.Utf8

/-!
# Decoding what was encoded

The bytes of a text are decoded to the text, also behind bytes that write another text
(`decode_append_encode`). A decoder that has read whole characters only is where it started, so the
second text is decoded as if it stood alone.
-/

namespace IdlFormat

namespace Utf8

/-! ## One character -/

section Steps

variable {byte code low high : Nat} {ranges : List (Nat × Nat)}

theorem toNat_toUInt8 (small : byte < 0x100) : byte.toUInt8.toNat = byte :=
  Nat.mod_eq_of_lt small

theorem decodeFrom_first (small : byte < 0x100)
    (starts : sequence? byte = some (code, (low, high) :: ranges)) (position : Nat) (rest : Bytes) :
    decodeFrom position none (byte.toUInt8 :: rest) =
      decodeFrom (position + 1) (some ⟨code, (low, high) :: ranges, [byte.toUInt8]⟩) rest := by
  rw [decodeFrom, step]
  simp only [toNat_toUInt8 small, starts]

theorem decodeFrom_next (small : byte < 0x100) (inside : low ≤ byte ∧ byte ≤ high)
    (filled : ranges ≠ []) (position : Nat) (bytes rest : Bytes) :
    decodeFrom position (some ⟨code, (low, high) :: ranges, bytes⟩) (byte.toUInt8 :: rest) =
      decodeFrom (position + 1)
        (some ⟨code * 0x40 + byte % 0x40, ranges, bytes ++ [byte.toUInt8]⟩) rest := by
  have within : ¬ (byte < low ∨ high < byte) := by omega
  rw [decodeFrom, step]
  simp [toNat_toUInt8 small, within, filled]

theorem decodeFrom_last (small : byte < 0x100) (inside : low ≤ byte ∧ byte ≤ high)
    (position : Nat) (bytes rest : Bytes) :
    decodeFrom position (some ⟨code, [(low, high)], bytes⟩) (byte.toUInt8 :: rest) =
      (decodeFrom (position + 1) none rest).map (Char.ofNat (code * 0x40 + byte % 0x40) :: ·) := by
  have within : ¬ (byte < low ∨ high < byte) := by omega
  rw [decodeFrom, step]
  simp [toNat_toUInt8 small, within]

end Steps

/-- The first of three bytes leaves room for the second one, unless the character is a surrogate. -/
theorem exists_sequence?_three {code : Nat} (large : 0x800 ≤ code) (small : code < 0x10000)
    (valid : code < 0xD800 ∨ 0xDFFF < code) :
    ∃ low high, sequence? (0xE0 + code / 0x1000) =
        some (code / 0x1000, [(low, high), continuation]) ∧
      low ≤ 0x80 + code / 0x40 % 0x40 ∧ 0x80 + code / 0x40 % 0x40 ≤ high := by
  have share {top : Nat} {ranges : List (Nat × Nat)} (same : top = code / 0x1000) :
      some (top, ranges) = some (code / 0x1000, ranges) := by
    rw [same]
  unfold sequence?
  rw [if_neg (by omega), if_neg (by omega), if_neg (by omega)]
  split
  · next least => exact ⟨_, _, share (by omega), by omega, by omega⟩
  split
  · next surrogate => exact ⟨_, _, share (by omega), by omega, by omega⟩
  rw [if_pos (by omega)]
  exact ⟨_, _, share (by omega), by omega, by omega⟩

theorem exists_sequence?_four {code : Nat} (large : 0x10000 ≤ code) (small : code < 0x110000) :
    ∃ low high, sequence? (0xF0 + code / 0x40000) =
        some (code / 0x40000, [(low, high), continuation, continuation]) ∧
      low ≤ 0x80 + code / 0x1000 % 0x40 ∧ 0x80 + code / 0x1000 % 0x40 ≤ high := by
  have share {top : Nat} {ranges : List (Nat × Nat)} (same : top = code / 0x40000) :
      some (top, ranges) = some (code / 0x40000, ranges) := by
    rw [same]
  unfold sequence?
  rw [if_neg (by omega), if_neg (by omega), if_neg (by omega), if_neg (by omega), if_neg (by omega),
    if_neg (by omega)]
  split
  · next least => exact ⟨_, _, share (by omega), by omega, by omega⟩
  split
  · next between => exact ⟨_, _, share (by omega), by omega, by omega⟩
  rw [if_pos (by omega)]
  exact ⟨_, _, share (by omega), by omega, by omega⟩

theorem decodeFrom_encodeChar (position : Nat) (c : Char) (rest : Bytes) :
    decodeFrom position none (encodeChar c ++ rest) =
      (decodeFrom (position + (encodeChar c).length) none rest).map (c :: ·) := by
  have valid : c.toNat < 0xD800 ∨ 0xDFFF < c.toNat ∧ c.toNat < 0x110000 := c.valid
  have written {code : Nat} (same : code = c.toNat) : Char.ofNat code = c := by
    rw [same, Char.ofNat_toNat]
  unfold encodeChar
  simp only [apply_ite (· ++ rest), List.cons_append, List.nil_append]
  split
  · next one =>
      have byte := toNat_toUInt8 (show c.toNat < 0x100 by omega)
      simp [decodeFrom, step, byte, sequence?, one]
  split
  · next two =>
      have starts : sequence? (0xC0 + c.toNat / 0x40) =
          some (c.toNat / 0x40, [continuation]) := by
        unfold sequence?
        rw [if_neg (by omega), if_neg (by omega), if_pos (by omega), Nat.add_sub_cancel_left]
      rw [decodeFrom_first (by omega) starts, decodeFrom_last (by omega) (by omega),
        written (by omega)]
      rfl
  split
  · next three =>
      rcases @exists_sequence?_three c.toNat (by omega) three (by omega) with
        ⟨low, high, starts, inside⟩
      rw [decodeFrom_first (by omega) starts, decodeFrom_next (by omega) inside (by simp),
        continuation, decodeFrom_last (by omega) (by omega), written (by omega)]
      rfl
  · rcases @exists_sequence?_four c.toNat (by omega) (by omega) with ⟨low, high, starts, inside⟩
    rw [decodeFrom_first (by omega) starts, decodeFrom_next (by omega) inside (by simp),
      continuation, decodeFrom_next (by omega) (by omega) (by simp),
      decodeFrom_last (by omega) (by omega), written (by omega)]
    rfl

/-! ## Texts -/

theorem decodeFrom_encode (position : Nat) (text : Text) :
    decodeFrom position none (encode text) = .ok text := by
  induction text generalizing position with
  | nil => rfl
  | cons c text ih =>
      rw [encode, List.flatMap_cons, decodeFrom_encodeChar, ← encode, ih]
      rfl

theorem decodeFrom_append {bytes : Bytes} {position : Nat} {pending : Option Pending} {text : Text}
    (read : decodeFrom position pending bytes = .ok text) (more : Bytes) :
    decodeFrom position pending (bytes ++ more) =
      (decodeFrom (position + bytes.length) none more).map (text ++ ·) := by
  induction bytes generalizing position pending text with
  | nil =>
      cases pending with
      | none =>
          obtain rfl : [] = text := by simpa [decodeFrom] using read
          exact (congrFun Except.map_id _).symm
      | some pending => simp [decodeFrom] at read
  | cons byte bytes ih =>
      rw [decodeFrom] at read
      rw [List.cons_append, decodeFrom]
      split at read
      · cases read
      · next c pending taken =>
          cases later : decodeFrom (position + 1) pending bytes with
          | error fault => simp [later, Except.map] at read
          | ok after =>
              obtain rfl : c :: after = text := by simpa [later, Except.map] using read
              simp only [ih later, List.length_cons, Nat.add_assoc, Nat.add_comm 1]
              cases decodeFrom (position + (bytes.length + 1)) none more <;> rfl
      · next pending taken =>
          simp only [ih read, List.length_cons, Nat.add_assoc, Nat.add_comm 1]

/-- The bytes of a text are decoded behind bytes that write a text. -/
theorem decode_append_encode {bytes : Bytes} {before : Text} (read : decode bytes = .ok before)
    (text : Text) : decode (bytes ++ encode text) = .ok (before ++ text) := by
  rw [decode, decodeFrom_append read, decodeFrom_encode]
  rfl

end Utf8

end IdlFormat
