import RuleWeaver.Text.Hex

/-!
# Quoted text in TOML

The four kinds of strings.  Each reader starts behind the opening quotes and gives the text and what follows the
closing ones.
-/

namespace RuleWeaver.Toml

/-- Whether a character may stand in strings and comments. -/
def isPlain (c : Char) : Bool := c = '\t' || (0x20 ≤ c.toNat && c.toNat ≠ 0x7F)

/-- The character of a one-letter escape. -/
def escaped? (c : Char) : Option Char :=
  if c = 'b' then some '\x08'
  else if c = 't' then some '\t'
  else if c = 'n' then some '\n'
  else if c = 'f' then some '\x0C'
  else if c = 'r' then some '\r'
  else if c = 'e' then some '\x1B'
  else if c = '\"' then some '\"'
  else if c = '\\' then some '\\'
  else none

/-- Puts a character, if there is one, in front of what was read. -/
def prepend? (c : Option Char) (rest : Option (Text × Text)) : Option (Text × Text) :=
  c.bind fun c => rest.map fun (s, behind) => (c :: s, behind)

/-- Reads a string in double quotes. -/
def basicString : Text → Option (Text × Text)
  | [] => none
  | '\"' :: s => some ([], s)
  | '\\' :: 'x' :: a :: b :: s => prepend? (Text.hexChar? [a, b]) (basicString s)
  | '\\' :: 'u' :: a :: b :: c :: d :: s => prepend? (Text.hexChar? [a, b, c, d]) (basicString s)
  | '\\' :: 'U' :: a :: b :: c :: d :: e :: f :: g :: h :: s =>
    prepend? (Text.hexChar? [a, b, c, d, e, f, g, h]) (basicString s)
  | '\\' :: c :: s => prepend? (escaped? c) (basicString s)
  | c :: s => prepend? (if isPlain c && c ≠ '\\' then some c else none) (basicString s)

/-- Reads a string in single quotes. -/
def literalString : Text → Option (Text × Text)
  | [] => none
  | '\'' :: s => some ([], s)
  | c :: s => prepend? (if isPlain c then some c else none) (literalString s)

/-- Drops the line break that directly follows opening quotes. -/
def dropFirstBreak : Text → Text
  | '\n' :: s => s
  | '\r' :: '\n' :: s => s
  | s => s

/-- Where a reader of a string over several lines is. -/
inductive LineState
  | text
  /-- Behind a backslash that has to end its line. -/
  | lineEnd
  /-- Behind such a line, where white space is dropped. -/
  | margin
deriving DecidableEq

/-- Reads a string over several lines in double quotes. -/
def basicLines (state : LineState) : Text → Option (Text × Text)
  | [] => none
  | '\r' :: '\n' :: s =>
    match state with
    | .text => prepend? (some '\n') (basicLines .text s)
    | _ => basicLines .margin s
  | '\"' :: '\"' :: '\"' :: s =>
    if state = .lineEnd then none
    else
      match s with
      | '\"' :: '\"' :: s => some (['\"', '\"'], s)
      | '\"' :: s => some (['\"'], s)
      | s => some ([], s)
  | '\\' :: 'x' :: a :: b :: s =>
    if state = .lineEnd then none else prepend? (Text.hexChar? [a, b]) (basicLines .text s)
  | '\\' :: 'u' :: a :: b :: c :: d :: s =>
    if state = .lineEnd then none else prepend? (Text.hexChar? [a, b, c, d]) (basicLines .text s)
  | '\\' :: 'U' :: a :: b :: c :: d :: e :: f :: g :: h :: s =>
    if state = .lineEnd then none else prepend? (Text.hexChar? [a, b, c, d, e, f, g, h]) (basicLines .text s)
  | '\\' :: c :: s =>
    if state = .lineEnd then none
    else if c = '\n' then basicLines .margin s
    else if c = ' ' || c = '\t' || c = '\r' && s.head? = some '\n' then basicLines .lineEnd s
    else prepend? (escaped? c) (basicLines .text s)
  | c :: s =>
    if c = '\n' then
      match state with
      | .text => prepend? (some '\n') (basicLines .text s)
      | _ => basicLines .margin s
    else if (c = ' ' || c = '\t') && state ≠ .text then basicLines state s
    else if state = .lineEnd then none
    else prepend? (if isPlain c && c ≠ '\\' then some c else none) (basicLines .text s)

/-- Reads a string over several lines in single quotes. -/
def literalLines : Text → Option (Text × Text)
  | [] => none
  | '\r' :: '\n' :: s => prepend? (some '\n') (literalLines s)
  | '\'' :: '\'' :: '\'' :: s =>
    match s with
    | '\'' :: '\'' :: s => some (['\'', '\''], s)
    | '\'' :: s => some (['\''], s)
    | s => some ([], s)
  | c :: s => prepend? (if isPlain c || c = '\n' then some c else none) (literalLines s)

end RuleWeaver.Toml
