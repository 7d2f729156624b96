import RuleWeaver.Disk
import RuleWeaver.Glob.Ignore

/-!
# Discovery

The types files below a folder: those whose name ends with a suffix, whose path from the folder matches the filter, and
which no ignore file skips.  They are listed in the order of their paths.
-/

namespace RuleWeaver

/-- A file that was discovered. -/
structure FoundFile where
  path : Path
  /-- The path from the folder that was searched. -/
  relative : Path
deriving DecidableEq, Repr

/-- How a folder is searched. -/
structure Search where
  root : Path
  suffix : Text
  /-- Whether the version control's own ignore files count. -/
  gitignore : Bool
  filter : Option Glob.Pattern
deriving DecidableEq, Repr

/-! ### Ignore files -/

/-- The folders around a place, the nearest first.  The working directory is not around what the root is around. -/
def foldersAround (place : Place) : List Place :=
  let outer := if Disk.root.isPrefixOf place then 1 else 0
  ((List.range place.length).drop outer).reverse.map place.take

/-- The rules of an ignore file; none if there is no such text. -/
def rulesAt (d : Disk) (place : Place) : List Glob.IgnoreRule :=
  match d.file? place with
  | some (.text s) => Glob.ignoreRules s
  | _ => []

/-- What the ignore files with a name say about a place; the nearest that says anything decides. -/
def verdictOf? (d : Disk) (name : Place) (place : Place) (isFolder : Bool) : Option Glob.Verdict :=
  (foldersAround place).findSome? fun folder =>
    Glob.verdict? (rulesAt d (folder ++ name)) (Text.join ['/'] (place.drop folder.length)) isFolder

/-- The ignore files that count, the more important first. -/
def ignoreNames (gitignore : Bool) : List Place :=
  [".ignore"] :: if gitignore then [[".gitignore"], [".git", "info", "exclude"]] else []

/-- Whether a place is skipped. -/
def isSkipped (d : Disk) (gitignore : Bool) (place : Place) (isFolder : Bool) : Bool :=
  (ignoreNames gitignore).findSome? (fun name => verdictOf? d name place isFolder) = some .skip

/-- Whether neither a file nor a folder on the way to it is skipped, looking from below a root. -/
def isVisible (d : Disk) (gitignore : Bool) (root file : Place) : Bool :=
  !isSkipped d gitignore file false &&
    (foldersAround file).all fun folder => folder.length ≤ root.length || !isSkipped d gitignore folder true

/-! ### Searching -/

/-- The types files below the root, in the order of their paths. -/
def Search.files (s : Search) (d : Disk) (root : Place) : List FoundFile :=
  let found := d.files.filterMap fun (place, _) =>
    let names := place.drop root.length
    let relative := Text.join ['/'] names
    if Disk.below root place && s.suffix.isSuffixOf (names.getLast?.getD []) &&
        s.filter.all (Glob.accepts · relative) && isVisible d s.gitignore root place
    then some ⟨Path.join s.root relative, relative⟩ else none
  found.mergeSort fun a b => Path.le a.path b.path

/-- The types files, of which there may be none. -/
def Search.runAllowingNone (s : Search) (d : Disk) : Except Error (List FoundFile) :=
  match d.locate s.root with
  | .ok root => if d.isFolder root then .ok (s.files d root) else .error (.directoryNotFound s.root)
  | .error _ => .error (.directoryNotFound s.root)

/-- The types files, of which there has to be one. -/
def Search.run (s : Search) (d : Disk) : Except Error (List FoundFile) := do
  let files ← s.runAllowingNone d
  if files.isEmpty then throw (.noTypesFiles s.root s.suffix) else return files

/-- Reads the filter of a search. -/
def readSearchFilter (filter : Text) : Except Error Glob.Pattern :=
  (Glob.ofFilter filter).mapError fun e => .invalidPattern filter e.message

end RuleWeaver
