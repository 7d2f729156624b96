import RuleWeaver.Source.Comments
import RuleWeaver.Text.Quoted
import RuleWeaver.Text.Words

/-!
# Nodes

The pieces of new code that go into a document: plain text, functions, imports, and map literals that gain entries.
-/

namespace RuleWeaver

open Text (quote)

/-- One import path with the name given to it, if any. -/
structure NewImport where
  name : Option Text
  path : Text
deriving DecidableEq, Repr

namespace NewImport

/-- Paths of the standard library have no dot in their first element. -/
def isStandard (l : NewImport) : Bool := !(l.path.takeWhile (· ≠ '/')).contains '.'

def render (l : NewImport) : Text :=
  match l.name with
  | some name => name ++ " " ++ quote l.path
  | none => quote l.path

/-- Lines are ordered by their paths; of one path the line without a name comes first. -/
def le (a b : NewImport) : Bool :=
  if a.path = b.path then
    match a.name, b.name with
    | none, _ => true
    | some _, none => false
    | some m, some n => Text.le m n
  else Text.le a.path b.path

end NewImport

/-- What a map entry maps to. -/
inductive EntryValue
  /-- A name, written as it is. -/
  | name (n : Text)
  /-- A text, written as a literal. -/
  | string (s : Text)
deriving DecidableEq, Repr

def EntryValue.render : EntryValue → Text
  | .name n => n
  | .string s => quote s

/-- A map literal that gains entries. -/
structure GrowingMap where
  /-- What stands between the braces already. -/
  body : Text
  entries : List (Text × EntryValue)
deriving DecidableEq, Repr

namespace GrowingMap

/-- The old body without the white space at its end, and with a comma behind its last entry. -/
def renderBody (body : Text) : Text :=
  let kept := Text.trimEnd body
  match Source.lastCodeToken? kept with
  | some last =>
    if last.kind = .comma ∨ last.kind = .lbrace then kept
    else Text.slice kept 0 last.stop ++ "," ++ Text.dropBytes last.stop kept
  | none => kept

def renderEntry (key : Text) (value : EntryValue) : Text := "\t" ++ quote key ++ ": " ++ value.render ++ ",\n"

def render (m : GrowingMap) : Text :=
  "\x7b" ++ renderBody m.body ++ "\n" ++ m.entries.flatMap (fun (key, value) => renderEntry key value) ++ "\x7d"

end GrowingMap

/-- A group of imports: each line once, the standard library before the rest, either part in order. -/
def renderImports (lines : List NewImport) : Text :=
  let sorted := (lines.mergeSort NewImport.le).eraseReps
  let standard := sorted.filter (·.isStandard)
  let others := sorted.filter (!·.isStandard)
  let part (ls : List NewImport) : Text := ls.flatMap fun l => "\t" ++ l.render ++ "\n"
  "import (\n" ++ part standard ++ (if standard ≠ [] ∧ others ≠ [] then "\n" else "") ++ part others ++ ")\n"

/-- A piece of new code. -/
inductive Node
  | text (s : Text)
  | map (m : GrowingMap)
  /-- A function with its comment; an empty line goes before it. -/
  | function (s : Text)
  | imports (lines : List NewImport)
  /-- An import on its own line in a group that exists. -/
  | importSpec (line : NewImport)
deriving DecidableEq, Repr

def Node.render : Node → Text
  | .text s => s
  | .map m => m.render
  | .function s => "\n" ++ s
  | .imports lines => renderImports lines
  | .importSpec line => "\n\t" ++ line.render

/-- Nodes one behind the other. -/
def renderNodes (nodes : List Node) : Text := nodes.flatMap Node.render

end RuleWeaver
