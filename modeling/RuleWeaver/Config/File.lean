import RuleWeaver.Config.Basic
import RuleWeaver.Disk
import RuleWeaver.Toml.Reader

/-!
# Configuration files

The settings of a TOML document, in tables that may also be lists of their values in order.  Settings and tables that
are not known are ignored; missing ones have their defaults.
-/

namespace RuleWeaver.Config

open Toml (Value Table)

/-- A table of settings, by name or by position. -/
inductive Settings
  | named (entries : List (Text × Value))
  | listed (values : List Value)

namespace Settings

def ofValue? : Value → Option Settings
  | .table _ entries => some (.named entries)
  | .array values => some (.listed values)
  | .tables items => some (.listed (items.map (.table .header)))
  | _ => none

def get? (s : Settings) (key : Text) (position : Nat) : Option Value :=
  match s with
  | .named entries => entries.lookup key
  | .listed values => values[position]?

/-- Reads a setting, which has its default when it is missing. -/
def read? {α : Type} (s : Settings) (key : Text) (position : Nat) (decode : Value → Option α) (default : α) :
    Option α :=
  match s.get? key position with
  | none => some default
  | some v => decode v

end Settings

def boolean? : Value → Option Bool
  | .boolean b => some b
  | _ => none

def text? : Value → Option Text
  | .string s => some s
  | _ => none

/-- The name of a choice: a text, or the only key of a table that holds nothing else. -/
def choice? : Value → Option Text
  | .string s => some s
  | .table _ [(name, .array [])] => some name
  | .table _ [(name, .table _ [])] => some name
  | _ => none

/-- The settings of one table of a document. -/
def settings? (t : Table) (key : Text) : Option Settings :=
  match t.get? key with
  | none => some (.named [])
  | some v => Settings.ofValue? v

/-- The configuration that a document stands for. -/
def ofTable? (t : Table) : Option Config := do
  let c := Config.default
  let features ← settings? t "features"
  let customValidation ← features.read? "custom_validation" 0 boolean? c.features.customValidation
  let translation ← features.read? "translation" 1 boolean? c.features.translation
  let language ← features.read? "language" 2 (fun v => (choice? v).bind Language.ofName?) c.features.language
  let naming ← settings? t "naming"
  let requestSuffix ← naming.read? "request_suffix" 0 text? c.naming.requestSuffix
  let typesFileSuffix ← naming.read? "types_file_suffix" 1 text? c.naming.typesFileSuffix
  let registryFile ← naming.read? "registry_file" 2 text? c.naming.registryFile
  let translationFile ← naming.read? "translation_file" 3 text? c.naming.translationFile
  let format ← settings? t "format"
  let engine ← format.read? "engine" 0 (fun v => (choice? v).bind Engine.ofName?) c.format.engine
  let gofmtPath ← format.read? "gofmt_path" 1 text? c.format.gofmtPath
  let scan ← settings? t "scan"
  let respectGitignore ← scan.read? "respect_gitignore" 0 boolean? c.respectGitignore
  return ⟨⟨customValidation, translation, language⟩, ⟨requestSuffix, typesFileSuffix, registryFile, translationFile⟩,
    ⟨engine, gofmtPath⟩, respectGitignore⟩

/-- The file that is read when no other is named. -/
def fileName : Path := "goctl-validate.toml"

/-- Reads a configuration file.  One that is named has to exist; without it the defaults hold. -/
def load (d : Disk) (path : Option Path) : Except Error Config := do
  let file := path.getD fileName
  if d.exists? file then
    let text ← (d.read file).mapError (.configUnreadable file)
    match (Toml.read? text).bind ofTable? with
    | none => throw (.configInvalid file)
    | some c =>
      c.check
      return c
  else if path.isSome then throw (.configNotFound file)
  else return default

/-- The lines of a configuration file with the defaults. -/
def templateLines : List String :=
  ["# goctl-validate configuration file",
    "",
    "[features]",
    "# Register a function and a rule-map entry for every custom validate tag",
    "custom_validation = true",
    "",
    "# Maintain translator.go with localized error messages",
    "translation = false",
    "",
    "# Translation language (zh, zh_TW, en)",
    "language = \"zh\"",
    "",
    "[naming]",
    "# Struct names ending with this suffix get a Validate method even without tags",
    "request_suffix = \"Req\"",
    "",
    "# Files whose names end with this suffix are scanned",
    "types_file_suffix = \"types.go\"",
    "",
    "# Generated files, written next to each types file",
    "registry_file = \"validation.go\"",
    "translation_file = \"translator.go\"",
    "",
    "[format]",
    "# Formatter gate: \"builtin\" (parse check + whitespace normalisation) or \"gofmt\"",
    "engine = \"builtin\"",
    "",
    "# gofmt binary used by the \"gofmt\" engine",
    "gofmt_path = \"gofmt\"",
    "",
    "[scan]",
    "# Skip files ignored by .gitignore",
    "respect_gitignore = true"]

/-- A configuration file with the defaults. -/
def template : Text := templateLines.flatMap fun line => line.toList ++ ['\n']

end RuleWeaver.Config
