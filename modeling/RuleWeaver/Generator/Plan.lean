import RuleWeaver.Config.Basic
import RuleWeaver.Methods
import RuleWeaver.Generator.Report
import RuleWeaver.Registry.Render
import RuleWeaver.Translation.Render

/-!
# Plans

What has to be written for a types file: the registry file, the translation file and the types file itself, each checked
and formatted.  A plan is made by reading alone, so a file that cannot be planned leaves everything as it is.
-/

namespace RuleWeaver

/-- A configuration with the formatter in use. -/
structure Generator where
  config : Config
  formatter : Formatter
deriving DecidableEq, Repr

/-- What has to be written for a types file. -/
structure Plan where
  candidates : Nat
  addedMethods : List Text
  registry : Outcome
  translation : Option Outcome
  conflicts : List Conflict
  /-- The texts to write, in order. -/
  texts : List (Path × Text)
deriving DecidableEq, Repr

/-- What becomes of a generated file. -/
structure PlannedFile where
  existing : Option Text
  outcome : Outcome
  /-- The new text, if it differs from the existing one. -/
  text : Option Text
deriving DecidableEq, Repr

namespace PlannedFile

/-- A file that is not there and not planned. -/
def none : PlannedFile := ⟨Option.none, .unchanged, Option.none⟩

/-- The text that the file has afterwards. -/
def final? (f : PlannedFile) : Option Text := f.text <|> f.existing

/-- The file with its path, if it is to be written. -/
def toWrite (f : PlannedFile) (path : Path) : List (Path × Text) := (f.text.map (path, ·)).toList

end PlannedFile

/-- Whether a source file declares the validator that the package shares. -/
def declaresValidator (source : Text) : Bool :=
  match Source.parse source with
  | .ok tree => tree.hasVar "validate"
  | .error _ => Detection.hasValidateVar source

/-- The plan for a types file without candidates. -/
def Plan.skipped : Plan := ⟨0, [], .unchanged, none, [], []⟩

namespace Generator

def ofConfig (c : Config) : Generator := ⟨c, c.formatter⟩

/-- Checks and formats a generated file; a text that stays the same is not written. -/
def finish (g : Generator) (path : Path) (existing : Option Text) (r : Rendering) : Except Error PlannedFile :=
  match r.text? with
  | none => .ok ⟨existing, r.outcome, none⟩
  | some text =>
    match g.formatter.format text with
    | .error e => .error (.merge path (.format e))
    | .ok text => .ok ⟨existing, r.outcome, if existing = some text then none else some text⟩

/-- Plans the translation file; nothing when it is not maintained. -/
def planTranslation (g : Generator) (w : Staging) (path : Path) (package : Text) (required : Requirements) :
    Except Error (Option PlannedFile) := do
  if !g.config.features.translation then return none
  let existing ← w.read path
  let translated := (existing.map Translations.ofSource).getD .empty
  let missing := translated.missing required
  let r ← translationRendering path existing package g.config.features.language missing translated
  return some (← g.finish path existing r)

/-- The new text of the types file, if it changes. -/
def planTypes (g : Generator) (path : Path) (source : Text) (tree : Source.Tree) (types : List Text)
    (elsewhere : Bool) : Except Error (Option Text) :=
  match addMethods source tree types elsewhere with
  | none => .ok none
  | some text =>
    match g.formatter.format text with
    | .error e => .error (.format path e)
    | .ok text => .ok (if text = source then none else some text)

/-- Plans what has to be written for a scanned types file. -/
def planScan (g : Generator) (w : Staging) (path : Path) (source : Text) (scan : Scan) : Except Error Plan := do
  let folder := path.parent
  let registryPath := folder.join g.config.naming.registryFile
  let translationPath := folder.join g.config.naming.translationFile
  let others := (← w.sources folder [path, registryPath, translationPath]).map (·.2)
  let existing ← w.read registryPath
  let registered := ((existing.map Registry.ofSource).getD .empty).withFunctions (others.flatMap Detection.functions)
  let required := Requirements.collect scan.candidates g.config.features.customValidation
  let additions := Additions.compute scan.candidates scan.methodTypes required registered
  let registry ←
    g.finish registryPath existing
      (← registryRendering registryPath existing scan.package additions registered required)
  let translation ← g.planTranslation w translationPath scan.package required
  let elsewhere :=
    (others ++ registry.final?.toList ++ (translation.bind (·.final?)).toList).any declaresValidator
  let types ← g.planTypes path source scan.tree additions.methods elsewhere
  return {
    candidates := scan.candidates.length
    addedMethods := additions.methods
    registry := registry.outcome
    translation := translation.map (·.outcome)
    conflicts := additions.conflicts
    texts := registry.toWrite registryPath ++ (translation.getD .none).toWrite translationPath ++
      (types.map (path, ·)).toList }

/-- Plans what has to be written for a types file. -/
def plan (g : Generator) (w : Staging) (path : Path) : Except Error Plan := do
  match ← w.read path with
  | none => throw (.unreadable path .absent)
  | some source =>
    let scan ← (Scan.ofSource g.config.naming.requestSuffix source).mapError (.source path)
    if scan.candidates.isEmpty then return .skipped else g.planScan w path source scan

end Generator

end RuleWeaver
