import RuleWeaver.Discovery
import RuleWeaver.Generator.Plan

/-!
# Runs

A run discovers the types files below a folder and processes them one after the other.  The first failure ends it; files
processed before stay written.

* `Generator.process_error`: a types file that cannot be planned leaves the staging area as it is.
-/

namespace RuleWeaver

/-- The report of a plan that was carried out. -/
def Plan.report (p : Plan) (relative : Path) (writes : List Write) : FileSummary :=
  ⟨relative, p.candidates, p.addedMethods, p.registry, p.translation, p.conflicts, writes⟩

namespace Generator

/-- The types files below a folder that a filter lets through. -/
def discover (g : Generator) (d : Disk) (root : Path) (filter : Option Text) : Except Error (List FoundFile) := do
  let filter ← filter.mapM readSearchFilter
  Search.runAllowingNone ⟨root, g.config.naming.typesFileSuffix, g.config.respectGitignore, filter⟩ d

/-- Processes one types file: plans it, then writes what is planned. -/
def process (g : Generator) (w : Staging) (file : FoundFile) : Except Error FileSummary × Staging :=
  match g.plan w file.path with
  | .error e => (.error e, w)
  | .ok plan =>
    let (writes, w) := w.commitAll plan.texts
    (writes.map (plan.report file.relative), w)

/-- Processes types files in order up to the first failure. -/
def processAll (g : Generator) (w : Staging) : List FoundFile → Except Error (List FileSummary) × Staging
  | [] => (.ok [], w)
  | file :: files =>
    match g.process w file with
    | (.error e, w) => (.error e, w)
    | (.ok report, w) =>
      let (reports, w) := g.processAll w files
      (reports.map (report :: ·), w)

/-- Processes every types file below a folder. -/
def run (g : Generator) (w : Staging) (root : Path) (filter : Option Text) : Except Error Report × Staging :=
  match g.discover w.disk root filter with
  | .error e => (.error e, w)
  | .ok files =>
    let (reports, w) := g.processAll w files
    (reports.map Report.mk, w)

theorem process_error {g : Generator} {w : Staging} {file : FoundFile} {e : Error}
    (h : g.plan w file.path = .error e) : g.process w file = (.error e, w) := by
  simp [process, h]

end Generator

end RuleWeaver
