/-!
# `FormLang.Text.Utf8` — reading UTF-8

## Contents
- `Utf8.Lead`: what the first byte of a sequence promises about the bytes after it.
- `Utf8.decode`: the characters of a byte sequence, or the offset of the first ill-formed part.

A sequence is well formed as the Unicode standard tabulates it: no overlong form, no surrogate and
nothing beyond `U+10FFFF`. All three are ruled out by the range that the first byte leaves to the
second.
-/

namespace FormLang.Text.Utf8

/-- A character under way: how many bytes are still to come, the range of the next one, and the
bits read so far. -/
structure Lead where
  remaining : Nat
  low : Nat
  high : Nat
  bits : Nat

/-- What a byte that is not ASCII begins, if it can begin a sequence. -/
def Lead.ofByte? (b : Nat) : Option Lead :=
  if 0xC2 ≤ b && b ≤ 0xDF then some ⟨1, 0x80, 0xBF, b - 0xC0⟩
  else if b = 0xE0 then some ⟨2, 0xA0, 0xBF, 0⟩
  else if b = 0xED then some ⟨2, 0x80, 0x9F, 0xD⟩
  else if 0xE1 ≤ b && b ≤ 0xEF then some ⟨2, 0x80, 0xBF, b - 0xE0⟩
  else if b = 0xF0 then some ⟨3, 0x90, 0xBF, 0⟩
  else if 0xF1 ≤ b && b ≤ 0xF3 then some ⟨3, 0x80, 0xBF, b - 0xF0⟩
  else if b = 0xF4 then some ⟨3, 0x80, 0x8F, 4⟩
  else none

/-- Reads on from a byte offset. `lead` is the sequence under way, which began at `offset`; without
one, `offset` is where the next byte stands. The characters read come last first in `done`. -/
def decodeFrom (offset : Nat) (lead : Option Lead) (done : List Char) :
    List UInt8 → Except Nat (List Char)
  | [] => match lead with
      | none => .ok done.reverse
      | some _ => .error offset
  | byte :: bytes =>
      let b := byte.toNat
      match lead with
      | none =>
          if b < 0x80 then decodeFrom (offset + 1) none (Char.ofNat b :: done) bytes
          else match Lead.ofByte? b with
            | some l => decodeFrom offset (some l) done bytes
            | none => .error offset
      | some l =>
          if l.low ≤ b && b ≤ l.high then
            let bits := l.bits * 64 + (b - 0x80)
            match l.remaining with
            | 0 | 1 =>
                let c := Char.ofNat bits
                decodeFrom (offset + c.utf8Size) none (c :: done) bytes
            -- only the byte after the first has a narrower range
            | k + 2 => decodeFrom offset (some ⟨k + 1, 0x80, 0xBF, bits⟩) done bytes
          else .error offset

/-- The text that the bytes encode, or the offset of the first byte of the first sequence that is
not well formed. -/
def decode (bytes : List UInt8) : Except Nat (List Char) := decodeFrom 0 none [] bytes

end FormLang.Text.Utf8
