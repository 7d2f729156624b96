import RuleWeaver.Error
import RuleWeaver.Source.Parser
import RuleWeaver.Text.Words

/-!
# Layout

`layout` checks that a text parses and brings its white space into normal form: line breaks are single characters,
lines do not end in blanks, empty lines stand alone and not at the beginning, and the text ends with one line break.
Raw strings and block comments that span lines are left as they are.
-/

namespace RuleWeaver

open Source (Span Token tokenize parse)

/-- The ranges in which layout changes nothing: raw strings and block comments with a line break. -/
def keptSpans (tokens : List Token) : List Span :=
  (tokens.filter fun t => (t.kind = .rawString ∨ t.kind = .blockComment) ∧ '\n' ∈ t.text).map (·.span)

/-- Whether an offset is inside one of the ranges. -/
def isInside (spans : List Span) (offset : Nat) : Bool :=
  spans.any fun s => s.start < offset && offset < s.stop

/-- The lines of a text without their line breaks; an unfinished last line counts if it is not empty. -/
def physicalLines (s : Text) : List Text :=
  let pieces := Text.split (· = '\n') s
  if pieces.getLast? = some [] then pieces.dropLast else pieces

/-- A line without the blanks at its end. -/
def trimBlanks (line : Text) : Text := (line.reverse.dropWhile fun c => c = ' ' || c = '\t').reverse

/-- Lays out lines.  `offset` is where they begin, `afterBlank` tells whether an empty line precedes, `first` whether
nothing does. -/
def layoutLines (kept : List Span) (offset : Nat) (afterBlank first : Bool) : List Text → Text
  | [] => []
  | line :: rest =>
    let next := offset + Text.width line + 1
    if isInside kept (offset + Text.width line) then line ++ '\n' :: layoutLines kept next false false rest
    else if trimBlanks line = [] ∧ ¬ isInside kept offset then
      if afterBlank || first then layoutLines kept next true first rest
      else '\n' :: layoutLines kept next true false rest
    else trimBlanks line ++ '\n' :: layoutLines kept next false false rest

/-- The text with exactly one line break at its end. -/
def endWithBreak (s : Text) : Text := (s.reverse.dropWhile (· = '\n')).reverse ++ ['\n']

/-- Checks a text and normalises its white space. -/
def layout (text : Text) : Except Source.SyntaxError Text :=
  let text := Text.replaceAll "\r\n" "\n" text
  match parse text, tokenize text with
  | .error e, _ => .error e
  | _, .error e => .error e
  | .ok _, .ok tokens => .ok (endWithBreak (layoutLines (keptSpans tokens) 0 false true (physicalLines text)))

/-- How the text of a file is checked and formatted before it is written. -/
inductive Formatter
  | builtin
  /-- An external tool.  Tools are not run; one that copies its input is known, any other is treated as missing. -/
  | tool (path : Text)
  /-- Refuses every text. -/
  | refusing (name message : Text)
deriving DecidableEq, Repr

/-- The tool that copies its input. -/
def copyTool : Text := "cat"

/-- The formatted text.  Where a tool is missing the built-in layout takes its place. -/
def Formatter.format (f : Formatter) (text : Text) : Except FormatError Text :=
  match f with
  | .builtin => (layout text).mapError .syntaxError
  | .tool path => if path = copyTool then .ok text else (layout text).mapError .syntaxError
  | .refusing name message => .error (.tool name message)

end RuleWeaver
