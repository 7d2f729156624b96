import RuleWeaver.Text.Basic

/-!
# Numbers in text

Numbers written with the digits of a base, and the characters that numbers stand for.
-/

namespace RuleWeaver.Text

/-- The value of a hexadecimal digit. -/
def hexDigit? (c : Char) : Option Nat :=
  if '0' ≤ c && c ≤ '9' then some (c.toNat - '0'.toNat)
  else if 'a' ≤ c && c ≤ 'f' then some (c.toNat - 'a'.toNat + 10)
  else if 'A' ≤ c && c ≤ 'F' then some (c.toNat - 'A'.toNat + 10)
  else none

/-- The number that digits of a base stand for. -/
def number? (base : Nat) (s : Text) : Option Nat :=
  s.foldlM (fun n c => (hexDigit? c).bind fun d => if d < base then some (n * base + d) else none) 0

/-- The character with a code. -/
def charOf? (code : Nat) : Option Char := if code.isValidChar then some (Char.ofNat code) else none

/-- The character whose code is written in hexadecimal digits. -/
def hexChar? (digits : Text) : Option Char := (number? 16 digits).bind charOf?

end RuleWeaver.Text
