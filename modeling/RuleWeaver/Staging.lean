import RuleWeaver.Disk

/-!
# Staging

The staging area stands in front of the disk while files are generated.  It remembers every text committed to it, so
that later reads see it even when a dry run keeps it from the disk.

* `Staging.commit_dryRun`: a dry run leaves the disk alone.
-/

namespace RuleWeaver

/-- What became of a text to write. -/
inductive Write
  | written (path : Path) (text : Text)
  /-- A dry run only tells what would be written. -/
  | simulated (path : Path) (text : Text)
deriving DecidableEq, Repr

namespace Write

def path : Write → Path
  | written path _ | simulated path _ => path

def text : Write → Text
  | written _ text | simulated _ text => text

end Write

structure Staging where
  disk : Disk
  dryRun : Bool
  /-- The texts committed, each under the path it was first committed to. -/
  texts : List (Path × Text)
deriving DecidableEq, Repr

namespace Staging

def new (disk : Disk) (dryRun : Bool) : Staging := ⟨disk, dryRun, []⟩

/-- The text committed to a path. -/
def committed? (w : Staging) (path : Path) : Option Text := (w.texts.find? (·.1.same path)).map (·.2)

/-- The current text at a path, nothing if there is no file. -/
def read (w : Staging) (path : Path) : Except Error (Option Text) :=
  match w.committed? path with
  | some text => .ok (some text)
  | none =>
    match w.disk.read path with
    | .ok text => .ok (some text)
    | .error .notFound => .ok none
    | .error cause => .error (.unreadable path cause)

/-- Remembers a text for a path. -/
def remember (w : Staging) (path : Path) (text : Text) : Staging :=
  if (w.committed? path).isSome then
    { w with texts := w.texts.map fun (p, t) => if p.same path then (p, text) else (p, t) }
  else { w with texts := w.texts ++ [(path, text)] }

/-- The disk with a text written to a path; folders are made as needed. -/
def store (d : Disk) (path : Path) (text : Text) : Except Error Disk := do
  let folder := path.parent
  let d ←
    if folder = [] || d.exists? folder then pure d
    else (d.createFolders folder).mapError (.createDirectory folder)
  (d.write path text).mapError (.writeFile path)

/-- Writes a text to a path and remembers it for later reads. -/
def commit (w : Staging) (path : Path) (text : Text) : Except Error (Write × Staging) :=
  if w.dryRun then .ok (.simulated path text, w.remember path text)
  else (store w.disk path text).map fun disk => (.written path text, { w with disk }.remember path text)

/-- Commits texts in order.  The first failure ends it; what was committed before stays. -/
def commitAll (w : Staging) : List (Path × Text) → Except Error (List Write) × Staging
  | [] => (.ok [], w)
  | (path, text) :: rest =>
    match w.commit path text with
    | .error e => (.error e, w)
    | .ok (write, w) =>
      let (writes, w) := w.commitAll rest
      (writes.map (write :: ·), w)

/-- Keeps the first of neighbours with the same parts. -/
def dropRepeats : List Path → List Path
  | [] => []
  | [p] => [p]
  | p :: q :: rest => if p.same q then dropRepeats (p :: rest) else p :: dropRepeats (q :: rest)

/-- Whether a path is that of a source file of a package, test files apart. -/
def isPackageFile (path : Path) : Bool :=
  match path.fileName? with
  | some name => (".go".toList).isSuffixOf name && !("_test.go".toList).isSuffixOf name
  | none => false

/-- The paths of what stands in a folder, committed texts included, in order. -/
def entries (w : Staging) (folder : Path) : Except Error (List Path) := do
  let committed := (w.texts.map (·.1)).filter fun p : Path => p ≠ [] && p.parent.same folder
  let listed ←
    match w.disk.list folder with
    | .ok names => pure (names.map folder.join)
    | .error .notFound => pure []
    | .error cause => throw (.unreadable folder cause)
  return dropRepeats ((committed ++ listed).mergeSort Path.le)

/-- The source files in a folder with their current texts, except those at some paths. -/
def sources (w : Staging) (folder : Path) (except : List Path) : Except Error (List (Path × Text)) := do
  let paths := (← w.entries folder).filter fun p => isPackageFile p && !except.any p.same
  let texts ← paths.mapM w.read
  return (paths.zip texts).filterMap fun (p, text) => text.map (p, ·)

theorem remember_disk (w : Staging) (path : Path) (text : Text) : (w.remember path text).disk = w.disk := by
  unfold remember
  split <;> rfl

theorem remember_dryRun (w : Staging) (path : Path) (text : Text) : (w.remember path text).dryRun = w.dryRun := by
  unfold remember
  split <;> rfl

theorem commit_dryRun {w w' : Staging} {path : Path} {text : Text} {write : Write} (h : w.dryRun = true)
    (hc : w.commit path text = .ok (write, w')) : w'.disk = w.disk := by
  simp only [commit, h, if_true, Except.ok.injEq, Prod.mk.injEq] at hc
  rw [← hc.2, remember_disk]

end Staging

end RuleWeaver
