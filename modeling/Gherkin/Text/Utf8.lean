/-
  UTF-8. A sequence of bytes is read byte by byte; between the bytes of a character the reading
  knows how many more it needs and in which range the next one has to lie. A reading fails at the
  first byte that no character can have there, or at an end within a character.
-/

namespace Gherkin.Text.Utf8

/-- Why bytes are not UTF-8. The index is that of the first byte of the faulty character. -/
inductive Fault where
  /-- So many bytes could begin a character, or one that cannot, and the next one is wrong. -/
  | invalid (length index : Nat)
  /-- The bytes end within a character. -/
  | incomplete (index : Nat)
deriving DecidableEq

/-- The wording of a fault. -/
def Fault.describe : Fault → String
  | invalid length index => s!"invalid utf-8 sequence of {length} bytes from index {index}"
  | incomplete index => s!"incomplete utf-8 byte sequence from index {index}"

/-- A character whose first bytes were read: how many bytes it still needs, the range of the next
one, the bits so far, and the number of bytes so far. -/
structure Begun where
  needs : Nat
  low : Nat
  high : Nat
  bits : Nat
  length : Nat
deriving DecidableEq

/-- The character that a byte above the ASCII range begins. Overlong forms, surrogates and values
above the last code point are shut out by the range of the second byte. -/
def begin? (b : Nat) : Option Begun :=
  if 0xc2 ≤ b && b ≤ 0xdf then some ⟨1, 0x80, 0xbf, b - 0xc0, 1⟩
  else if b = 0xe0 then some ⟨2, 0xa0, 0xbf, 0, 1⟩
  else if b = 0xed then some ⟨2, 0x80, 0x9f, 0xd, 1⟩
  else if 0xe1 ≤ b && b ≤ 0xef then some ⟨2, 0x80, 0xbf, b - 0xe0, 1⟩
  else if b = 0xf0 then some ⟨3, 0x90, 0xbf, 0, 1⟩
  else if 0xf1 ≤ b && b ≤ 0xf3 then some ⟨3, 0x80, 0xbf, b - 0xf0, 1⟩
  else if b = 0xf4 then some ⟨3, 0x80, 0x8f, 4, 1⟩
  else none

/-- Reads on from a place between characters, or within one that begins at `index`. -/
def decodeFrom (index : Nat) : Option Begun → List UInt8 → Except Fault (List Char)
  | none, [] => .ok []
  | some _, [] => .error (.incomplete index)
  | none, b :: rest =>
    let b := b.toNat
    if b < 0x80 then (decodeFrom (index + 1) none rest).map (Char.ofNat b :: ·)
    else match begin? b with
      | none => .error (.invalid 1 index)
      | some begun => decodeFrom index (some begun) rest
  | some c, b :: rest =>
    let b := b.toNat
    if c.low ≤ b && b ≤ c.high then
      let bits := c.bits * 64 + (b - 0x80)
      if c.needs ≤ 1 then
        (decodeFrom (index + c.length + 1) none rest).map (Char.ofNat bits :: ·)
      else decodeFrom index (some ⟨c.needs - 1, 0x80, 0xbf, bits, c.length + 1⟩) rest
    else .error (.invalid c.length index)

/-- The characters of a sequence of bytes. -/
def decode (bytes : List UInt8) : Except Fault (List Char) := decodeFrom 0 none bytes

/-- The bytes of a text. -/
def encode (s : String) : List UInt8 := s.toUTF8.toList

end Gherkin.Text.Utf8
