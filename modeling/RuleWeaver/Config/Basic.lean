import RuleWeaver.Error
import RuleWeaver.Layout
import RuleWeaver.Path
import RuleWeaver.Translation.Language

/-!
# Configuration

What can be configured, the defaults, and which values go together.
-/

namespace RuleWeaver

/-- What formats a file before it is written. -/
inductive Engine
  | builtin
  | gofmt
deriving DecidableEq, Repr

namespace Engine

/-- The name that chooses an engine. -/
def name : Engine → Text
  | .builtin => "builtin"
  | .gofmt => "gofmt"

/-- The engine with a name. -/
def ofName? (name : Text) : Option Engine := [builtin, gofmt].find? (·.name = name)

end Engine

structure Features where
  /-- Whether custom rules get functions, and not only those that always exist. -/
  customValidation : Bool
  /-- Whether the translation file is maintained. -/
  translation : Bool
  language : Language
deriving DecidableEq, Repr

structure Naming where
  /-- What the names of request types end with. -/
  requestSuffix : Text
  /-- What the names of types files end with. -/
  typesFileSuffix : Text
  registryFile : Text
  translationFile : Text
deriving DecidableEq, Repr

structure Formatting where
  engine : Engine
  gofmtPath : Path
deriving DecidableEq, Repr

structure Config where
  features : Features
  naming : Naming
  format : Formatting
  /-- Whether files that the version control ignores are skipped. -/
  respectGitignore : Bool
deriving DecidableEq, Repr

namespace Config

def default : Config where
  features := ⟨true, false, .zh⟩
  naming := ⟨"Req", "types.go", "validation.go", "translator.go"⟩
  format := ⟨.builtin, "gofmt"⟩
  respectGitignore := true

instance : Inhabited Config := ⟨default⟩

/-- The formatter that a configuration chooses. -/
def formatter (c : Config) : Formatter :=
  match c.format.engine with
  | .builtin => .builtin
  | .gofmt => .tool c.format.gofmtPath

/-- Checks the name of a file. -/
def checkFileName (key value : Text) : Except Error Unit :=
  if value = [] then .error (.configValue key "must not be empty")
  else if (".go".toList).isSuffixOf value then .ok ()
  else .error (.configValue key "must end with '.go'")

/-- Checks that the file names are usable and do not clash. -/
def check (c : Config) : Except Error Unit := do
  let n := c.naming
  checkFileName "naming.types_file_suffix" n.typesFileSuffix
  checkFileName "naming.registry_file" n.registryFile
  checkFileName "naming.translation_file" n.translationFile
  if n.registryFile = n.translationFile then
    throw (.configValue "naming.translation_file" "must differ from naming.registry_file")
  if n.typesFileSuffix.isSuffixOf n.registryFile || n.typesFileSuffix.isSuffixOf n.translationFile then
    throw (.configValue "naming.types_file_suffix" "generated files must not match the types file suffix")

/-- Settings from a command line, which come before those of a file. -/
structure Overrides where
  customValidation : Option Bool
  translation : Option Bool
  language : Option Language
  engine : Option Engine
deriving DecidableEq, Repr

/-- The configuration with some settings replaced. -/
def override (c : Config) (o : Overrides) : Config :=
  { c with
    features :=
      ⟨o.customValidation.getD c.features.customValidation, o.translation.getD c.features.translation,
        o.language.getD c.features.language⟩
    format := { c.format with engine := o.engine.getD c.format.engine } }

end Config

end RuleWeaver
