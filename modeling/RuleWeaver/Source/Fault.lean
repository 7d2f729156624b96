import RuleWeaver.Text.Position

/-!
# Faults

What can be wrong with a source file, and where.  A `Fault` is the cause, a `SyntaxError` adds the position.
-/

namespace RuleWeaver.Source

/-- What a reader of declarations was looking for when it met something else. -/
inductive Goal
  | packageClause
  | packageName
  | importsFirst
  | importSeparator
  | importPath
  | importGroupEnd
  | declaration
  | typeName
  | typeGroupEnd
  | functionName
  | parameterList
  | valueName
  | valueGroupEnd
  | noClosingBracket
  | declarationEnd
deriving DecidableEq, Repr

/-- What a reader of declarations met. -/
inductive Found
  /-- A line break that ends a statement. -/
  | newline
  | text (s : Text)
  | endOfFile
deriving DecidableEq, Repr

/-- The causes for which a source file is refused. -/
inductive Fault
  | commentNotTerminated
  | stringNotTerminated
  | rawStringNotTerminated
  | invalidCharacter (c : Char)
  | unexpectedBracket (bracket : Text)
  | unclosedBracket (bracket : Text)
  /-- A group of which neither the closing bracket nor a fault was found. -/
  | groupNotClosed
  /-- Text inside a group that begins no token. -/
  | invalidInGroup
  | fieldNameExpected
  | fieldTypeExpected
  | receiverTypeExpected
  | unmet (goal : Goal) (found : Found)
deriving DecidableEq, Repr

/-- A fault at a position. -/
structure SyntaxError where
  position : Position
  fault : Fault
deriving DecidableEq, Repr

/-- A fault at a byte offset of a text. -/
def SyntaxError.at (source : Text) (offset : Nat) (fault : Fault) : SyntaxError :=
  ⟨RuleWeaver.position source offset, fault⟩

/-- The lower-case hexadecimal digits of a number. -/
def hexDigits (n : Nat) : Text := Nat.toDigits 16 n

/-- A character as messages show it: between single quotes, control characters and quotes escaped. -/
def shownChar (c : Char) : Text :=
  let inner : Text :=
    match c with
    | '\x00' => "\\0"
    | '\t' => "\\t"
    | '\n' => "\\n"
    | '\r' => "\\r"
    | '\x27' => "\\'"
    | '\\' => "\\\\"
    | c => if c.toNat < 0x20 ∨ c.toNat = 0x7f then "\\u\x7b" ++ hexDigits c.toNat ++ "\x7d" else [c]
  "'" ++ inner ++ "'"

/-- The first half of a message about an unmet goal. -/
def Goal.message : Goal → Text
  | .packageClause => "expected 'package' clause"
  | .packageName => "expected package name"
  | .importsFirst => "imports must appear before other declarations"
  | .importSeparator => "expected ';' or ')' after import"
  | .importPath => "expected import path"
  | .importGroupEnd => "unexpected end of import group"
  | .declaration => "non-declaration statement outside function body"
  | .typeName => "expected type name"
  | .typeGroupEnd => "unexpected end of type group"
  | .functionName => "expected function name"
  | .parameterList => "expected '(' after function name"
  | .valueName => "expected identifier"
  | .valueGroupEnd => "unexpected end of declaration group"
  | .noClosingBracket => "unexpected closing bracket"
  | .declarationEnd => "expected ';' or newline after declaration"

/-- The second half of a message about an unmet goal. -/
def Found.message : Found → Text
  | .newline => "newline"
  | .text s => "`" ++ s ++ "`"
  | .endOfFile => "end of file"

/-- The wording of a fault. -/
def Fault.message : Fault → Text
  | .commentNotTerminated => "comment not terminated"
  | .stringNotTerminated => "string literal not terminated"
  | .rawStringNotTerminated => "raw string literal not terminated"
  | .invalidCharacter c => "invalid character " ++ shownChar c
  | .unexpectedBracket b => "unexpected `" ++ b ++ "`"
  | .unclosedBracket b => "unclosed `" ++ b ++ "`"
  | .groupNotClosed => "unclosed bracket"
  | .invalidInGroup => "invalid token inside bracketed group"
  | .fieldNameExpected => "expected field name"
  | .fieldTypeExpected => "expected field type"
  | .receiverTypeExpected => "expected receiver type"
  | .unmet goal found => goal.message ++ ", found " ++ found.message

/-- Line, column and wording of an error. -/
def SyntaxError.message (e : SyntaxError) : Text :=
  (toString e.position.line).toList ++ ":" ++ (toString e.position.column).toList ++ ": " ++ e.fault.message

end RuleWeaver.Source
