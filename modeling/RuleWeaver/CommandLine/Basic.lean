import RuleWeaver.CommandLine.Arguments
import RuleWeaver.Generator.Basic
import RuleWeaver.Plugin.Invocation
import RuleWeaver.Plugin.Payload

/-!
# Commands

What each command prints, how it ends, and what it leaves on the disk.
-/

namespace RuleWeaver.CommandLine

/-- How a command went. -/
structure Result where
  outcome : Except Error Unit
  output : Text
  disk : Disk

namespace Result

/-- The exit code: 2 when generated code is out of date, 1 for any other error. -/
def exitCode (r : Result) : Nat :=
  match r.outcome with
  | .ok _ => 0
  | .error (.outOfDate _) => 2
  | .error _ => 1

/-- The line about an error. -/
def errorLine? (r : Result) : Option Text :=
  match r.outcome with
  | .ok _ => none
  | .error e => some ("Error: " ++ e.message)

end Result

/-- The decimal digits of a number. -/
def decimal (n : Nat) : Text := Nat.toDigits 10 n

/-- A line of output. -/
def line (s : Text) : Text := s ++ ['\n']

/-! ### Reports -/

/-- The line around a text that is only shown. -/
def rule : Text := List.replicate 60 '─'

def writeLines : Write → Text
  | .written path text =>
    line ("    ✓ Written " ++ decimal (Text.width text) ++ " bytes to " ++ path)
  | .simulated path text =>
    line ("    [dry-run] Would write to " ++ path ++ ":") ++ line rule ++ line text ++ line rule

def conflictLine (c : Conflict) : Text :=
  line ("    Note: tag '" ++ c.tag ++ "' in " ++ c.type ++ " uses different parameters, keeping the first")

def fileLines (f : FileSummary) : Text :=
  if f.candidates = 0 then line ("  - " ++ f.path ++ " (no request types)")
  else
    line ("  • " ++ f.path ++ ": " ++ decimal f.candidates ++ " type(s), " ++ decimal f.addedMethods.length ++
      " new Validate method(s), registry " ++ f.registry.label) ++
      f.conflicts.flatMap conflictLine ++ f.writes.flatMap writeLines

/-- What is printed about a run. -/
def reportLines (r : Report) : Text :=
  r.files.flatMap fileLines ++ if r.isCurrent then line "✓ Everything is up to date" else []

/-! ### Commands -/

/-- The configuration that options choose. -/
def Options.load (o : Options) (d : Disk) : Except Error Config :=
  (Config.load d o.config).map (·.override o.overrides)

/-- Processes the types files below a folder. -/
def generateBelow (c : Config) (d : Disk) (dir : Path) (filter : Option Text) (dryRun : Bool) : Result :=
  let g := Generator.ofConfig c
  let scanning := line "Scanning for types files..."
  match g.discover d dir filter with
  | .error e => ⟨.error e, scanning, d⟩
  | .ok [] =>
    let warning : Text := "Warning: No files ending in '" ++ c.naming.typesFileSuffix ++ "' found in " ++ dir
    ⟨.ok (), scanning ++ line warning, d⟩
  | .ok files =>
    let output := scanning ++ line ("  Found " ++ decimal files.length ++ " types file(s)") ++
      line "Merging validation code..."
    match g.run (Staging.new d dryRun) dir filter with
    | (.error e, w) => ⟨.error e, output, w.disk⟩
    | (.ok report, w) => ⟨.ok (), output ++ reportLines report, w.disk⟩

/-- Processes the project of a payload. -/
def generateForPlugin (o : Options) (d : Disk) (input : List UInt8) : Result :=
  let request : Except Error (Plugin.Payload × Config) := do
    let payload ←
      match Text.ofUtf8? input with
      | none => throw (.payloadUnreadable .invalidText)
      | some text =>
        match Plugin.Payload.read? text with
        | none => throw .payloadInvalid
        | some payload => pure payload
    return (payload, ← o.load d)
  match request with
  | .error e => ⟨.error e, [], d⟩
  | .ok (payload, c) => generateBelow c d payload.dir o.filter false

/-- Tells whether generated code is up to date. -/
def checkBelow (o : Options) (d : Disk) (dir : Path) : Result :=
  let checking := line "Checking generated validation code..."
  let report : Except Error Report := do
    let c ← o.load d
    ((Generator.ofConfig c).run (Staging.new d true) dir o.filter).1
  match report with
  | .error e => ⟨.error e, checking, d⟩
  | .ok report =>
    if report.isCurrent then ⟨.ok (), checking ++ line "✓ Generated code is up to date", d⟩
    else
      let output := checking ++ line "✗ Generated code is out of date:" ++
        report.changed.flatMap (fun path => line ("  " ++ path)) ++ line "  Run 'goctl-validate generate' to update"
      ⟨.error (.outOfDate (decimal report.changed.length ++ " file(s) would change")), output, d⟩

/-- Makes a configuration file. -/
def createConfig (d : Disk) (output : Path) (force : Bool) : Result :=
  if d.exists? output && !force then ⟨.error (.configExists output), [], d⟩
  else
    match d.write output Config.template with
    | .error cause => ⟨.error (.access cause), [], d⟩
    | .ok d => ⟨.ok (), line ("✓ Created configuration file: " ++ output), d⟩

/-- Runs a command on a disk, with the bytes of the standard input. -/
def Command.run (c : Command) (d : Disk) (input : List UInt8) : Result :=
  match c with
  | .generate dir dryRun o =>
    match o.load d with
    | .error e => ⟨.error e, [], d⟩
    | .ok c => generateBelow c d dir o.filter dryRun
  | .plugin o => generateForPlugin o d input
  | .check dir o => checkBelow o d dir
  | .init output force => createConfig d output force

/-- The files and folders that a command is told of. -/
def Command.paths (c : Command) (input : List UInt8) : List Path :=
  match c with
  | .generate dir _ o => dir :: o.config.toList
  | .plugin o => ((Text.ofUtf8? input).bind Plugin.Payload.read?).toList.map (·.dir) ++ o.config.toList
  | .check dir o => dir :: o.config.toList
  | .init output _ => [output]

/-! ### The program -/

def version : Text := "goctl-validate 0.1.0"

/-- What the program is told to do. -/
def usage : Text :=
  line "Add go-playground validation to goctl request types" ++ line [] ++
    line "Usage: goctl-validate [--debug] <generate|plugin|check|init> [OPTIONS]"

/-- What the program prints, its exit code, the line about an error, and the disk it leaves. -/
structure Ending where
  exitCode : Nat
  output : Text
  error : Option Text
  disk : Disk

/-- The command that arguments ask for. -/
def command? (args : List Text) : Option Command :=
  match readRequest false (Plugin.arguments args) with
  | .ok (.run command) => some command
  | _ => none

/-- Runs the program with its arguments. -/
def run (args : List Text) (d : Disk) (input : List UInt8) : Ending :=
  match readRequest false (Plugin.arguments args) with
  | .error e => ⟨2, [], some ("error: " ++ e.message), d⟩
  | .ok .version => ⟨0, line version, none, d⟩
  | .ok .help => ⟨0, usage, none, d⟩
  | .ok (.run command) =>
    let r := command.run d input
    ⟨r.exitCode, r.output, r.errorLine?, r.disk⟩

end RuleWeaver.CommandLine
