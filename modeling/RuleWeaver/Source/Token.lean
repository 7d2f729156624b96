import RuleWeaver.Text.Basic

/-!
# Tokens

The classes of source text that declarations are made of.  A `Lexeme` is a piece of text with its class, a `Token` a
lexeme at a byte offset.
-/

namespace RuleWeaver.Source

/-- The classes of lexemes.  Finer distinctions than declarations need are not made. -/
inductive Kind
  | blank
  | newline
  | lineComment
  | blockComment
  | packageWord
  | importWord
  | typeWord
  | funcWord
  | varWord
  | constWord
  | structWord
  | interfaceWord
  /-- `break`, `continue`, `fallthrough` and `return`. -/
  | flowWord
  | ident
  | number
  | string
  | rawString
  | rune
  | lbrace
  | rbrace
  | lparen
  | rparen
  | lbracket
  | rbracket
  | comma
  | semi
  | dot
  | ellipsis
  | star
  | assign
  | incDec
  | operator
  /-- Text that begins no lexeme of another class. -/
  | stray
deriving DecidableEq, Repr

namespace Kind

def isComment : Kind → Bool
  | lineComment | blockComment => true
  | _ => false

/-- Whether lexemes of the class carry meaning: all but blanks, line breaks and comments. -/
def isSignificant : Kind → Bool
  | blank | newline | lineComment | blockComment => false
  | _ => true

/-- Whether a line break after a lexeme of the class ends the statement. -/
def endsStatement : Kind → Bool
  | ident | number | string | rawString | rune | flowWord | incDec | rparen | rbracket | rbrace => true
  | _ => false

def isOpen : Kind → Bool
  | lbrace | lparen | lbracket => true
  | _ => false

def isClose : Kind → Bool
  | rbrace | rparen | rbracket => true
  | _ => false

/-- The class that closes what an opening bracket opens. -/
def closer? : Kind → Option Kind
  | lbrace => some rbrace
  | lparen => some rparen
  | lbracket => some rbracket
  | _ => none

end Kind

/-- A piece of text of one class. -/
structure Lexeme where
  kind : Kind
  text : Text
deriving DecidableEq, Repr

/-- A lexeme at a byte offset. -/
structure Token where
  kind : Kind
  text : Text
  start : Nat
deriving DecidableEq, Repr

/-- The byte offset behind a token. -/
def Token.stop (t : Token) : Nat := t.start + t.text.width

/-- A range of byte offsets, its end exclusive. -/
structure Span where
  start : Nat
  stop : Nat
deriving DecidableEq, Repr

def Token.span (t : Token) : Span := ⟨t.start, t.stop⟩

/-- Puts lexemes one behind the other, the first at the given offset. -/
def place : Nat → List Lexeme → List Token
  | _, [] => []
  | start, l :: ls => ⟨l.kind, l.text, start⟩ :: place (start + l.text.width) ls

end RuleWeaver.Source
