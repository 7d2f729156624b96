import RuleWeaver.Error
import RuleWeaver.Path
import RuleWeaver.Text.Utf8

/-!
# The disk

The file tree as a value.  A place is the list of names on the way to it from the working directory, or from the root
if it begins with the name `/`.  Folders are those listed and those above a listed place; above the working directory
there is nothing, and `..` stays there.
-/

namespace RuleWeaver

/-- What a file holds: a text, or bytes that are no UTF-8. -/
inductive Contents
  | text (s : Text)
  | binary (bytes : List UInt8)
deriving DecidableEq, Repr

namespace Contents

def ofBytes (bytes : List UInt8) : Contents :=
  match Text.ofUtf8? bytes with
  | some s => .text s
  | none => .binary bytes

/-- The text to show, faults replaced. -/
def shown : Contents → Text
  | .text s => s
  | .binary bytes => Text.ofUtf8Lossy bytes

end Contents

/-- The names on the way to a place. -/
abbrev Place := List Text

/-- The files and folders. -/
structure Disk where
  files : List (Place × Contents)
  folders : List Place
deriving DecidableEq, Repr

namespace Disk

def empty : Disk := ⟨[], []⟩

def file? (d : Disk) (place : Place) : Option Contents := d.files.lookup place

/-- The place of the root. -/
def root : Place := [['/']]

/-- Whether a place lies at or below a folder.  What the root is around is not below the working directory. -/
def below (folder place : Place) : Bool := folder.isPrefixOf place && (folder ≠ [] || !root.isPrefixOf place)

def isFolder (d : Disk) (place : Place) : Bool :=
  place = [] || d.folders.any (below place) || d.files.any fun (p, _) => below place p && p ≠ place

/-- The names of what stands in a folder, in ascending order. -/
def names (d : Disk) (folder : Place) : List Text :=
  Text.toSet ((d.files.map (·.1) ++ d.folders).filterMap fun p => if below folder p then p[folder.length]? else none)

/-- Holds a file at a place, whatever was there. -/
def put (d : Disk) (place : Place) (c : Contents) : Disk :=
  if (d.file? place).isSome then { d with files := d.files.map fun f => if f.1 = place then (place, c) else f }
  else { d with files := d.files ++ [(place, c)] }

def addFolder (d : Disk) (place : Place) : Disk := { d with folders := d.folders ++ [place] }

/-- Removes the file at a place; the folder around it stays. -/
def remove (d : Disk) (place : Place) : Disk :=
  if (d.file? place).isSome then ⟨d.files.filter (·.1 ≠ place), d.folders ++ [place.dropLast]⟩ else d

/-- The places whose file differs on another disk, with the file that is there. -/
def changes (d after : Disk) : List (Place × Option Contents) :=
  (d.files ++ after.files).map (·.1) |>.eraseDups.filterMap fun place =>
    if d.file? place = after.file? place then none else some (place, after.file? place)

/-! ### Paths -/

/-- Fails unless a place is a folder. -/
def requireFolder (d : Disk) (place : Place) : Except FileFault Unit :=
  if d.isFolder place then .ok () else if (d.file? place).isSome then .error .notADirectory else .error .notFound

/-- Where a segment of a path leads to from a folder. -/
def step (place : Place) (segment : Text) : Place :=
  if Path.isIdle segment then place
  else if segment = ".." then (if place = root then place else place.dropLast)
  else place ++ [segment]

/-- Follows the segments of a path; each needs a folder to start from. -/
def follow (d : Disk) (place : Place) : List Text → Except FileFault Place
  | [] => .ok place
  | segment :: rest => do
    d.requireFolder place
    d.follow (step place segment) rest

/-- Where a path starts, and the segments to follow from there. -/
def start (path : Path) : Place × List Text :=
  match Path.segments path with
  | [] :: second :: rest => (root, second :: rest)
  | segments => ([], segments)

/-- The place that a path leads to if every folder on the way is there. -/
def placeOf (path : Path) : Place :=
  let (place, segments) := start path
  segments.foldl step place

/-- The path of a place. -/
def pathOf : Place → Path
  | ['/'] :: names => '/' :: Text.join ['/'] names
  | names => Text.join ['/'] names

/-- The place that a path leads to. -/
def locate (d : Disk) (path : Path) : Except FileFault Place :=
  if path = [] then .error .notFound
  else
    let (place, segments) := start path
    d.follow place segments

def isFolderPath (d : Disk) (path : Path) : Bool := (d.locate path).toOption.any d.isFolder

def exists? (d : Disk) (path : Path) : Bool :=
  (d.locate path).toOption.any fun place => d.isFolder place || (d.file? place).isSome

/-- Reads a text file. -/
def read (d : Disk) (path : Path) : Except FileFault Text := do
  let place ← d.locate path
  match d.file? place with
  | some (.text s) => return s
  | some (.binary _) => throw .invalidText
  | none => throw (if d.isFolder place then .isADirectory else .notFound)

/-- The names of what stands in the folder at a path. -/
def list (d : Disk) (path : Path) : Except FileFault (List Text) := do
  let place ← d.locate path
  d.requireFolder place
  return d.names place

/-- Writes a text file into a folder that exists. -/
def write (d : Disk) (path : Path) (text : Text) : Except FileFault Disk := do
  if path = [] then throw .notFound
  let (place, segments) := start path
  let folder ← d.follow place segments.dropLast
  d.requireFolder folder
  match segments.getLast?.bind Path.part? with
  | some (.name s) =>
    if d.isFolder (folder ++ [s]) then throw .isADirectory else return d.put (folder ++ [s]) (.text text)
  | _ => throw .isADirectory

/-- Makes the folders along segments that do not exist. -/
def makeFolders (d : Disk) (place : Place) : List Text → Except FileFault Disk
  | [] => .ok d
  | segment :: rest => do
    d.requireFolder place
    let next := step place segment
    match d.file? next, rest with
    | some _, [] => throw .exists
    | some _, _ => throw .notADirectory
    | none, _ => (if d.isFolder next then d else d.addFolder next).makeFolders next rest

/-- Makes the folders along a path that do not exist. -/
def createFolders (d : Disk) (path : Path) : Except FileFault Disk :=
  let (place, segments) := start path
  d.makeFolders place segments

end Disk

end RuleWeaver
