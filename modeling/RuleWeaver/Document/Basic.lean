import RuleWeaver.Document.Node
import RuleWeaver.Source.Tree

/-!
# Documents

A document is a text with edits, each of which puts a node in place of a range of the text.  Rendering goes through the
text once; what no edit replaces stays as it is.
-/

namespace RuleWeaver

open Source (Span Tree)

/-- A node in place of a range, which may be empty. -/
structure Edit where
  span : Span
  node : Node
deriving DecidableEq, Repr

/-- A text with edits in the order they were made. -/
structure Document where
  source : Text
  edits : List Edit
deriving DecidableEq, Repr

namespace Document

/-- A text without edits. -/
def ofText (source : Text) : Document := ⟨source, []⟩

def replace (d : Document) (span : Span) (node : Node) : Document := { d with edits := d.edits ++ [⟨span, node⟩] }

/-- Puts a node at an offset; nodes at one offset stand in the order they were put there. -/
def insertAt (d : Document) (offset : Nat) (node : Node) : Document := d.replace ⟨offset, offset⟩ node

/-- Puts a node at the end, on a line of its own. -/
def append (d : Document) (node : Node) : Document :=
  let stop := d.source.width
  let onNewLine := d.edits.any (·.span.start = stop) || d.source.getLast?.all (· = '\n')
  ((if onNewLine then d else d.insertAt stop (.text "\n")).insertAt stop node)

def hasEdits (d : Document) : Bool := !d.edits.isEmpty

/-- Renders edits in order of their offsets, with the text between them; `cursor` is the end of what is done. -/
def renderFrom (source : Text) (cursor : Nat) : List Edit → Text
  | [] => Text.dropBytes (min cursor source.width) source
  | e :: es =>
    (if cursor < e.span.start then Text.slice source cursor e.span.start else []) ++ e.node.render ++
      renderFrom source (max cursor e.span.stop) es

def render (d : Document) : Text :=
  renderFrom d.source 0 (d.edits.mergeSort fun a b => a.span.start ≤ b.span.start)

/-- The offset behind the opening parenthesis of an import group. -/
def behindParen (source : Text) (group : Span) : Nat :=
  match Text.cut? "(" (Text.slice source group.start group.stop) with
  | some (before, _) => group.start + Text.width before + 1
  | none => group.stop

/-- Adds an import: to the last group of imports, else behind the last import, else behind the package clause. -/
def withImport (d : Document) (tree : Tree) (line : NewImport) : Document :=
  match tree.imports.reverse.find? (·.grouped) with
  | some group =>
    let at_ := match group.specs.getLast? with
      | some spec => spec.span.stop
      | none => behindParen d.source group.span
    d.insertAt at_ (.importSpec line)
  | none =>
    match tree.importsEnd? with
    | some stop => d.insertAt stop (.text ("\nimport " ++ line.render))
    | none => d.insertAt tree.package.span.stop (.text ("\n\nimport " ++ line.render))

end Document

end RuleWeaver
