import RuleWeaver.Source.Comments
import RuleWeaver.Text.Words

/-!
# Shapes

How code that exists already is recognised without a parser, also in files that do not parse.  A recogniser reads
something at the beginning of a text; `findAll` applies it wherever it fits, from the left and without overlaps.
Recognisers run on text whose comments are blanked.
-/

namespace RuleWeaver.Detection

open Unicode (isSpace isWord)

/-- Reads something at the beginning of a text and gives back the rest.  It is told whether a line begins there. -/
abbrev Recogniser (α : Type) := Bool → Text → Option (α × Text)

/-- What a recogniser reads, wherever it fits.  `fresh` tells whether a line begins at the text. -/
def findAll {α : Type} (r : Recogniser α) (fresh : Bool) (s : Text) : List α :=
  match s with
  | [] => []
  | c :: t =>
    match r fresh (c :: t) with
    | some (a, rest) =>
      if _h : rest.length ≤ t.length then a :: findAll r false rest else a :: findAll r (c = '\n') t
    | none => findAll r (c = '\n') t
termination_by s.length

/-- The pieces that shapes are made of. -/
inductive Piece
  | text (s : Text)
  /-- White space, or none. -/
  | gap
  /-- White space, at least one character. -/
  | space

/-- Past white space, or none. -/
def skipGap (s : Text) : Text := s.dropWhile isSpace

/-- Past white space, of which there is some. -/
def skipSpace? : Text → Option Text
  | [] => none
  | c :: s => if isSpace c then some (skipGap s) else none

/-- Past a shape at the beginning of a text. -/
def readShape? : List Piece → Text → Option Text
  | [], s => some s
  | .text t :: ps, s => (Text.strip? t s).bind (readShape? ps)
  | .gap :: ps, s => readShape? ps (skipGap s)
  | .space :: ps, s => (skipSpace? s).bind (readShape? ps)

/-- The offset behind the first place where a shape fits. -/
def endOfShape? (shape : List Piece) (offset : Nat) : Text → Option Nat
  | [] => none
  | c :: s =>
    match readShape? shape (c :: s) with
    | some rest => some (offset + (Text.width (c :: s) - Text.width rest))
    | none => endOfShape? shape (offset + c.utf8Size) s

/-- Reads word characters, of which there is at least one. -/
def readWord? (s : Text) : Option (Text × Text) :=
  let word := s.takeWhile isWord
  if word = [] then none else some (word, s.dropWhile isWord)

/-- Reads a name: an ASCII letter or underscore, and more characters that satisfy `more`. -/
def readName? (more : Char → Bool) : Text → Option (Text × Text)
  | [] => none
  | c :: s => if c.isAlpha || c = '_' then some (c :: s.takeWhile more, s.dropWhile more) else none

/-- The characters of qualified names. -/
def isQualified (c : Char) : Bool := isWord c || c = '.'

/-- Reads a text between double quotes that is not empty and holds no quote. -/
def readPlainString? (s : Text) : Option (Text × Text) :=
  (Text.strip? "\"" s).bind fun rest =>
    (Text.splitOnce? (· = '\"') rest).bind fun (inner, rest) => if inner = [] then none else some (inner, rest)

end RuleWeaver.Detection
