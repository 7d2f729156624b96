import RuleWeaver.Unicode.Categories

/-!
# Character classes

The classes that patterns and names are described with: white space, word characters, alphanumeric characters.
-/

namespace RuleWeaver.Unicode

def isAlphabetic (c : Char) : Bool :=
  if c.toNat < 0x80 then c.isAlpha
  else covers letters c.toNat || covers letterNumbers c.toNat || covers otherAlphabetics c.toNat

def isNumeric (c : Char) : Bool :=
  if c.toNat < 0x80 then c.isDigit
  else covers decimalDigits c.toNat || covers letterNumbers c.toNat || covers otherNumbers c.toNat

def isAlphanumeric (c : Char) : Bool := isAlphabetic c || isNumeric c

/-- Word characters: alphabetic characters, marks, decimal digits, connectors and joiners. -/
def isWord (c : Char) : Bool :=
  if c.toNat < 0x80 then c.isAlphanum || c = '_'
  else isAlphabetic c || covers marks c.toNat || covers decimalDigits c.toNat || covers connectors c.toNat ||
    covers joiners c.toNat

def isSpace (c : Char) : Bool := covers spaces c.toNat

end RuleWeaver.Unicode
