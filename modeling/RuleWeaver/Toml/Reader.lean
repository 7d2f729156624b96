import RuleWeaver.Toml.Quoted
import RuleWeaver.Toml.Scalar
import RuleWeaver.Toml.Value

/-!
# Reading TOML

`Toml.read?` gives the table that a document stands for, or nothing if it is not TOML.
-/

namespace RuleWeaver.Toml

/-! ### Blanks, comments and line ends -/

/-- The text behind blanks. -/
def dropBlanks (s : Text) : Text := s.dropWhile fun c => c = ' ' || c = '\t'

/-- The text behind blanks, line breaks and comments; nothing if a comment holds a character it may not hold. -/
def dropGap? (inComment : Bool) : Text → Option Text
  | [] => some []
  | '\n' :: s => dropGap? false s
  | '\r' :: '\n' :: s => dropGap? false s
  | c :: s =>
    if inComment then (if isPlain c then dropGap? true s else none)
    else if c = ' ' || c = '\t' then dropGap? false s
    else if c = '#' then dropGap? true s
    else some (c :: s)

/-- The text behind the rest of a line that holds nothing but blanks and a comment. -/
def endLine? (s : Text) : Option Text :=
  match dropBlanks s with
  | [] => some []
  | '\n' :: s => some s
  | '\r' :: '\n' :: s => some s
  | '#' :: s => dropGap? true s
  | _ => none

/-! ### Keys -/

def isBare (c : Char) : Bool := c.isAlphanum || c = '_' || c = '-'

/-- Reads one part of a key. -/
def keyPart? (s : Text) : Option (Text × Text) :=
  match s with
  | '\"' :: s => basicString s
  | '\'' :: s => literalString s
  | s => if s.takeWhile isBare = [] then none else some (s.takeWhile isBare, s.dropWhile isBare)

/-- Reads a key: the parts before the last one, and the last one. -/
def key? (fuel : Nat) (s : Text) : Option ((List Text × Text) × Text) :=
  match fuel with
  | 0 => none
  | fuel + 1 =>
    (keyPart? (dropBlanks s)).bind fun (part, s) =>
      match dropBlanks s with
      | '.' :: s => (key? fuel s).map fun ((parts, last), s) => ((part :: parts, last), s)
      | s => some (([], part), s)

/-! ### Values -/

/-- Whether a character belongs to a word. -/
def isWordChar (c : Char) : Bool := c.isAlphanum || c = '_' || c = '-' || c = '+' || c = '.' || c = ':'

/-- The value that a word stands for. -/
def wordValue? (word : Text) : Option Value :=
  if word = "true" then some (.boolean true)
  else if word = "false" then some (.boolean false)
  else if isInteger word || isFloat word then some (.number word)
  else if isMoment word then some (.moment word)
  else none

/-- Reads a value that is no text, list or table.  A time may follow its date behind a blank. -/
def scalar? (s : Text) : Option (Value × Text) :=
  let word := s.takeWhile isWordChar
  let rest := s.dropWhile isWordChar
  let next := rest.drop 1
  if date? word = some [] && rest.head? = some ' ' && next.head?.any Char.isDigit then
    (wordValue? (word ++ ' ' :: next.takeWhile isWordChar)).map (·, next.dropWhile isWordChar)
  else (wordValue? word).map (·, rest)

/-- A key with its value. -/
structure Entry where
  path : List Text
  key : Text
  value : Value

/-- The table that entries make. -/
def tableOf? (entries : List Entry) : Option Table :=
  entries.foldlM (fun t e => t.insert e.path e.key e.value) Table.root

mutual

/-- Reads a value, with at most `depth` lists and tables in one another. -/
def value? (fuel depth : Nat) (s : Text) : Option (Value × Text) :=
  match fuel, s with
  | 0, _ => none
  | _ + 1, '\"' :: '\"' :: '\"' :: s => (basicLines .text (dropFirstBreak s)).map fun (t, s) => (.string t, s)
  | _ + 1, '\"' :: s => (basicString s).map fun (t, s) => (.string t, s)
  | _ + 1, '\'' :: '\'' :: '\'' :: s => (literalLines (dropFirstBreak s)).map fun (t, s) => (.string t, s)
  | _ + 1, '\'' :: s => (literalString s).map fun (t, s) => (.string t, s)
  | fuel + 1, '[' :: s =>
    match depth with
    | 0 => none
    | depth + 1 => (items? fuel depth s).map fun (vs, s) => (.array vs, s)
  | fuel + 1, '\x7b' :: s =>
    match depth with
    | 0 => none
    | depth + 1 =>
      (members? fuel depth s).bind fun (es, s) => (tableOf? es).map fun t => (.table .inline t.entries, s)
  | _ + 1, s => scalar? s

/-- Reads the items of a list up to and with the closing bracket. -/
def items? (fuel depth : Nat) (s : Text) : Option (List Value × Text) :=
  match fuel with
  | 0 => none
  | fuel + 1 =>
    (dropGap? false s).bind fun s =>
      match s with
      | ']' :: s => some ([], s)
      | s =>
        (value? fuel depth s).bind fun (v, s) =>
          (dropGap? false s).bind fun s =>
            match s with
            | ',' :: s => (items? fuel depth s).map fun (vs, s) => (v :: vs, s)
            | ']' :: s => some ([v], s)
            | _ => none

/-- Reads the entries of a table up to and with the closing brace. -/
def members? (fuel depth : Nat) (s : Text) : Option (List Entry × Text) :=
  match fuel with
  | 0 => none
  | fuel + 1 =>
    (dropGap? false s).bind fun s =>
      match s with
      | '\x7d' :: s => some ([], s)
      | s =>
        (member? fuel depth s).bind fun (e, s) =>
          (dropGap? false s).bind fun s =>
            match s with
            | ',' :: s => (members? fuel depth s).map fun (es, s) => (e :: es, s)
            | '\x7d' :: s => some ([e], s)
            | _ => none

/-- Reads a key and its value. -/
def member? (fuel depth : Nat) (s : Text) : Option (Entry × Text) :=
  match fuel with
  | 0 => none
  | fuel + 1 =>
    (key? fuel s).bind fun ((path, key), s) =>
      match s with
      | '=' :: s => (value? fuel depth (dropBlanks s)).map fun (v, s) => (⟨path, key, v⟩, s)
      | _ => none

end

/-! ### Documents -/

/-- The number of lists and tables that may stand in one another. -/
def maxDepth : Nat := 80

/-- A line of a document that says something. -/
inductive Statement
  | entry (e : Entry)
  | table (path : List Text) (key : Text)
  | element (path : List Text) (key : Text)

/-- Reads a statement without the rest of its line. -/
def statement? (fuel : Nat) (s : Text) : Option (Statement × Text) :=
  match s with
  | '[' :: '[' :: s =>
    (key? fuel s).bind fun ((path, key), s) => (Text.strip? "]]" s).map fun s => (.element path key, s)
  | '[' :: s => (key? fuel s).bind fun ((path, key), s) => (Text.strip? "]" s).map fun s => (.table path key, s)
  | s => (member? fuel maxDepth s).map fun (e, s) => (.entry e, s)

/-- Reads statements up to the end of the text. -/
def statements? (fuel : Nat) (s : Text) : Option (List Statement) :=
  match fuel with
  | 0 => none
  | fuel + 1 =>
    (dropGap? false s).bind fun s =>
      if s = [] then some []
      else
        (statement? fuel s).bind fun (statement, s) =>
          (endLine? s).bind fun s => (statements? fuel s).map (statement :: ·)

/-- Adds statements to a document; `current` is the table that entries go to. -/
def addStatements (t : Table) (current : List Text) : List Statement → Option Table
  | [] => some t
  | .entry e :: rest =>
    (t.update false (fun t => t.insert e.path e.key e.value) current).bind (addStatements · current rest)
  | .table path key :: rest => (t.openTable path key).bind (addStatements · (path ++ [key]) rest)
  | .element path key :: rest => (t.openElement path key).bind (addStatements · (path ++ [key]) rest)

/-- The table that a document stands for. -/
def read? (s : Text) : Option Table :=
  let s := (Text.strip? ['\uFEFF'] s).getD s
  (statements? (2 * s.length + 2) s).bind (addStatements Table.root [])

end RuleWeaver.Toml
