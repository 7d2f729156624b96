import RuleWeaver.Registry.Rendering
import RuleWeaver.Registry.Requirements
import RuleWeaver.Staging

/-!
# Reports

What a run did, file by file.
-/

namespace RuleWeaver

/-- What happened to one types file and the files next to it. -/
structure FileSummary where
  /-- The types file, from the folder that was searched. -/
  path : Path
  /-- The number of candidates. -/
  candidates : Nat
  /-- The types that got a `Validate` method. -/
  addedMethods : List Text
  registry : Outcome
  /-- Nothing when there is no translation file to maintain. -/
  translation : Option Outcome
  conflicts : List Conflict
  writes : List Write
deriving DecidableEq, Repr

structure Report where
  files : List FileSummary
deriving DecidableEq, Repr

namespace Report

/-- All writes in order. -/
def writes (r : Report) : List Write := r.files.flatMap (·.writes)

/-- The paths written, or that would be. -/
def changed (r : Report) : List Path := r.writes.map (·.path)

/-- Whether there was nothing to change. -/
def isCurrent (r : Report) : Bool := r.writes.isEmpty

end Report

end RuleWeaver
