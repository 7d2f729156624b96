import RuleWeaver.Text.Basic

/-!
# Reading UTF-8

Bytes are read character by character.  Where they are no UTF-8, the longest run of bytes that could have begun a
character is one fault, and reading goes on behind it.
-/

namespace RuleWeaver.Text

/-- Whether a byte continues a character. -/
def isContinuation (b : UInt8) : Bool := 0x80 ≤ b && b ≤ 0xBF

/-- What may follow the first byte of a character: the range of the second byte and the number of bytes after it. -/
def secondByte? (b : UInt8) : Option ((UInt8 × UInt8) × Nat) :=
  if 0xC2 ≤ b && b ≤ 0xDF then some ((0x80, 0xBF), 0)
  else if b = 0xE0 then some ((0xA0, 0xBF), 1)
  else if b = 0xED then some ((0x80, 0x9F), 1)
  else if 0xE1 ≤ b && b ≤ 0xEF then some ((0x80, 0xBF), 1)
  else if b = 0xF0 then some ((0x90, 0xBF), 2)
  else if 0xF1 ≤ b && b ≤ 0xF3 then some ((0x80, 0xBF), 2)
  else if b = 0xF4 then some ((0x80, 0x8F), 2)
  else none

/-- The bits of a character in its first byte when `n` bytes follow. -/
def leadBits (b : UInt8) (n : Nat) : Nat := b.toNat % Nat.pow 2 (6 - n)

/-- Reads bytes.  `pending` tells of the character begun: its bits so far, the range of the next byte, and the number of
bytes after that. -/
def readBytes (pending : Option (Nat × (UInt8 × UInt8) × Nat)) : List UInt8 → List (Option Char)
  | [] => if pending.isSome then [none] else []
  | b :: bs =>
    let fresh : List (Option Char) :=
      if b < 0x80 then some (Char.ofNat b.toNat) :: readBytes none bs
      else
        match secondByte? b with
        | some (range, n) => readBytes (some (leadBits b (n + 1), range, n)) bs
        | none => none :: readBytes none bs
    match pending with
    | none => fresh
    | some (bits, (low, high), n) =>
      if low ≤ b && b ≤ high then
        let bits := bits * 64 + b.toNat % 64
        match n with
        | 0 => some (Char.ofNat bits) :: readBytes none bs
        | n + 1 => readBytes (some (bits, (0x80, 0xBF), n)) bs
      else none :: fresh

/-- The text that bytes are the UTF-8 form of. -/
def ofUtf8? (bytes : List UInt8) : Option Text := (readBytes none bytes).mapM id

/-- The text that bytes are the UTF-8 form of, with the replacement character for each fault. -/
def ofUtf8Lossy (bytes : List UInt8) : Text := (readBytes none bytes).map (·.getD '\uFFFD')

end RuleWeaver.Text
