import RuleWeaver.Text.Words

/-!
# Paths

A path is kept as it was written, because that is how it is shown again.  What it means is the list of its parts:
repeated separators, and a `.` that does not come first, say nothing.  Paths are compared and ordered by their parts.
-/

namespace RuleWeaver

/-- A path as it was written. -/
abbrev Path := Text

namespace Path

/-- A part of a path: the root, a leading `.`, a `..`, or a name. -/
inductive Part
  | root
  | here
  | up
  | name (s : Text)
deriving DecidableEq, Repr

/-- The texts between the separators. -/
def segments (p : Path) : List Text := Text.split (· = '/') p

/-- Whether a segment says nothing behind another one. -/
def isIdle (segment : Text) : Bool := segment = [] || segment = "."

/-- The part that a segment stands for, if it says anything. -/
def part? (segment : Text) : Option Part :=
  if isIdle segment then none else if segment = ".." then some .up else some (.name segment)

/-- The parts of a path. -/
def parts (p : Path) : List Part :=
  match segments p with
  | [] => []
  | first :: rest =>
    let lead : List Part :=
      if first = [] then (if rest = [] then [] else [.root])
      else if first = "." then [.here]
      else (part? first).toList
    lead ++ rest.filterMap part?

/-- Whether two paths have the same parts. -/
def same (p q : Path) : Bool := p.parts = q.parts

/-- The order of parts; names are ordered as texts. -/
def Part.le : Part → Part → Bool
  | .root, _ => true
  | .here, .root => false
  | .here, _ => true
  | .up, .root => false
  | .up, .here => false
  | .up, _ => true
  | .name s, .name t => Text.le s t
  | .name _, _ => false

/-- The order of lists of parts, the first difference deciding. -/
def partsLe : List Part → List Part → Bool
  | [], _ => true
  | _ :: _, [] => false
  | a :: as, b :: bs => if a = b then partsLe as bs else a.le b

/-- The order of paths. -/
def le (p q : Path) : Bool := partsLe p.parts q.parts

/-- The beginning that is never cut off, and what follows it. -/
def splitLead : Path → Text × Text
  | '/' :: rest => (['/'], rest)
  | ['.'] => (['.'], [])
  | '.' :: '/' :: rest => (['.'], '/' :: rest)
  | p => ([], p)

/-- Drops the segments at the end that say nothing. -/
def dropIdle (segments : List Text) : List Text := (segments.reverse.dropWhile isIdle).reverse

/-- The path without its last part; empty when there is nothing above it. -/
def parent (p : Path) : Path :=
  let (lead, body) := splitLead p
  match dropIdle (segments body) with
  | [] => []
  | names => lead ++ Text.join ['/'] (dropIdle names.dropLast)

/-- The last part, if it is a name. -/
def fileName? (p : Path) : Option Text :=
  match p.parts.getLast? with
  | some (.name s) => some s
  | _ => none

/-- A name or path seen from a folder. -/
def join (folder : Path) (p : Path) : Path :=
  if p.head? = some '/' then p
  else if folder = [] || folder.getLast? = some '/' then folder ++ p
  else folder ++ '/' :: p

end Path

end RuleWeaver
