import RuleWeaver.Source.Token

/-!
# Splitting text into lexemes

At each place the longest lexeme is taken: `munch` gives the class of the first one and how many characters belong to
it, `lex` repeats it to the end of the text.  Splitting never fails; text that begins no lexeme becomes `Kind.stray`.

* `flatMap_text_lex`: the lexemes, one behind the other, are the text.
-/

namespace RuleWeaver.Source

open Text (run)

def isBlank (c : Char) : Bool := c = ' ' ∨ c = '\t' ∨ c = '\r' ∨ c = '\x0c'

/-- Letters, the underscore and everything beyond ASCII. -/
def isNameStart (c : Char) : Bool := c.isAlpha ∨ c = '_' ∨ 0x80 ≤ c.toNat

def isNameChar (c : Char) : Bool := isNameStart c ∨ c.isDigit

def isNumberChar (c : Char) : Bool := c.isAlphanum ∨ c = '_' ∨ c = '.'

def isOperatorChar (c : Char) : Bool :=
  match c with
  | '+' | '-' | '*' | '/' | '%' | '&' | '|' | '^' | '<' | '>' | '=' | '!' | ':' | '~' => true
  | _ => false

/-- The class of a name: the reserved words that matter to declarations have their own. -/
def wordKind (word : Text) : Kind :=
  match word with
  | ['p', 'a', 'c', 'k', 'a', 'g', 'e'] => .packageWord
  | ['i', 'm', 'p', 'o', 'r', 't'] => .importWord
  | ['t', 'y', 'p', 'e'] => .typeWord
  | ['f', 'u', 'n', 'c'] => .funcWord
  | ['v', 'a', 'r'] => .varWord
  | ['c', 'o', 'n', 's', 't'] => .constWord
  | ['s', 't', 'r', 'u', 'c', 't'] => .structWord
  | ['i', 'n', 't', 'e', 'r', 'f', 'a', 'c', 'e'] => .interfaceWord
  | ['b', 'r', 'e', 'a', 'k'] => .flowWord
  | ['c', 'o', 'n', 't', 'i', 'n', 'u', 'e'] => .flowWord
  | ['f', 'a', 'l', 'l', 't', 'h', 'r', 'o', 'u', 'g', 'h'] => .flowWord
  | ['r', 'e', 't', 'u', 'r', 'n'] => .flowWord
  | _ => .ident

/-- How many characters belong to a literal behind its opening mark, and whether it is closed.  A backslash takes the
next character with it; neither the literal nor an escape goes past a line break. -/
def quoted (mark : Char) : Text → Bool × Nat
  | [] => (false, 0)
  | '\\' :: '\n' :: _ => (false, 1)
  | ['\\'] => (false, 1)
  | '\\' :: _ :: s => ((quoted mark s).1, (quoted mark s).2 + 2)
  | c :: s =>
    if c = '\n' then (false, 0)
    else if c = mark then (true, 1)
    else ((quoted mark s).1, (quoted mark s).2 + 1)

/-- How many characters there are up to the end of the first `*/`. -/
def commentEnd? : Text → Option Nat
  | '*' :: '/' :: _ => some 2
  | _ :: s => (commentEnd? s).map (· + 1)
  | [] => none

/-- A slash begins a comment or an operator.  A comment wins unless the operator is longer. -/
def munchSlash (rest : Text) : Kind × Nat :=
  let operators := run isOperatorChar rest
  match rest with
  | '/' :: _ => (.lineComment, run (· ≠ '\n') rest)
  | '*' :: inner =>
    match commentEnd? inner with
    | some n => if n + 1 < operators then (.operator, operators) else (.blockComment, n + 1)
    | none => (.operator, operators)
  | _ => (.operator, operators)

/-- A run of operator characters; `*`, `=`, `++` and `--` have classes of their own. -/
def munchOperator (c : Char) (rest : Text) : Kind × Nat :=
  let n := run isOperatorChar rest
  let kind : Kind :=
    match c, rest.take n with
    | '*', [] => .star
    | '=', [] => .assign
    | '+', ['+'] => .incDec
    | '-', ['-'] => .incDec
    | _, _ => .operator
  (kind, n)

/-- A literal on one line. -/
def munchQuoted (kind : Kind) (mark : Char) (rest : Text) : Kind × Nat :=
  let (closed, n) := quoted mark rest
  (if closed then kind else .stray, n)

/-- A literal between backquotes. -/
def munchRaw (rest : Text) : Kind × Nat :=
  let n := run (· ≠ '\x60') rest
  if n < rest.length then (.rawString, n + 1) else (.stray, n)

/-- The class of the first lexeme of `c :: rest`, and how many characters of `rest` belong to it. -/
def munch (c : Char) (rest : Text) : Kind × Nat :=
  if isBlank c then (.blank, run isBlank rest)
  else if isNameStart c then
    let n := run isNameChar rest
    (wordKind (c :: rest.take n), n)
  else if c.isDigit then (.number, run isNumberChar rest)
  else
    match c with
    | '\n' => (.newline, 0)
    | '\"' => munchQuoted .string '\"' rest
    | '\x27' => munchQuoted .rune '\x27' rest
    | '\x60' => munchRaw rest
    | '{' => (.lbrace, 0)
    | '}' => (.rbrace, 0)
    | '(' => (.lparen, 0)
    | ')' => (.rparen, 0)
    | '[' => (.lbracket, 0)
    | ']' => (.rbracket, 0)
    | ',' => (.comma, 0)
    | ';' => (.semi, 0)
    | '.' => if ['.', '.'].isPrefixOf rest then (.ellipsis, 2) else (.dot, 0)
    | '/' => munchSlash rest
    | _ => if isOperatorChar c then munchOperator c rest else (.stray, 0)

/-- The lexemes of a text. -/
def lex : Text → List Lexeme
  | [] => []
  | c :: rest => ⟨(munch c rest).1, c :: rest.take (munch c rest).2⟩ :: lex (rest.drop (munch c rest).2)
termination_by s => s.length
decreasing_by exact Nat.lt_succ_of_le (by rw [List.length_drop]; exact Nat.sub_le _ _)

theorem flatMap_text_lex (s : Text) : (lex s).flatMap Lexeme.text = s := by
  fun_induction lex s with
  | case1 => rfl
  | case2 c rest ih => simp [ih]

/-- The tokens of a text. -/
def tokens (s : Text) : List Token := place 0 (lex s)

end RuleWeaver.Source
