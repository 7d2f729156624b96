import RuleWeaver.Config.File

/-!
# Arguments

How a command is read from its arguments.  Options may stand once; of two that exclude each other the later one counts.
-/

namespace RuleWeaver.CommandLine

/-- The options of the commands that generate. -/
structure Options where
  config : Option Path
  overrides : Config.Overrides
  filter : Option Text
deriving DecidableEq, Repr

inductive Command
  /-- Processes every types file below a folder. -/
  | generate (dir : Path) (dryRun : Bool) (options : Options)
  /-- Processes the project that a payload tells of. -/
  | plugin (options : Options)
  /-- Tells whether generated code is up to date. -/
  | check (dir : Path) (options : Options)
  /-- Makes a configuration file. -/
  | init (output : Path) (force : Bool)
deriving DecidableEq, Repr

/-- What arguments ask for. -/
inductive Request
  | run (command : Command)
  | version
  | help
deriving DecidableEq, Repr

/-- Why arguments make no request. -/
inductive UsageError
  | noCommand
  | unknownCommand (word : Text)
  | unknownOption (word : Text)
  | unexpectedWord (word : Text)
  | repeated (option : Text)
  | missingValue (option : Text)
  | unexpectedValue (option : Text)
  | badValue (option value : Text)
deriving DecidableEq, Repr

def UsageError.message : UsageError → Text
  | .noCommand => "a command is required"
  | .unknownCommand word => "unrecognized subcommand '" ++ word ++ "'"
  | .unknownOption word => "unexpected argument '" ++ word ++ "' found"
  | .unexpectedWord word => "unexpected argument '" ++ word ++ "' found"
  | .repeated option => "the argument '--" ++ option ++ "' cannot be used multiple times"
  | .missingValue option => "a value is required for '--" ++ option ++ "' but none was supplied"
  | .unexpectedValue option => "unexpected value for '--" ++ option ++ "' found; no more were expected"
  | .badValue option value => "invalid value '" ++ value ++ "' for '--" ++ option ++ "'"

/-! ### Options -/

/-- How an option is written. -/
structure OptionForm where
  name : Text
  /-- Another name for it. -/
  otherName : Option Text := none
  /-- Its letter. -/
  letter : Option Char := none
  /-- The values it takes, by a test; without one it is a flag. -/
  value : Option (Text → Bool) := none
  /-- The option that it takes the place of. -/
  excludes : Option Text := none

/-- Whether a text can be a path. -/
def isPath (s : Text) : Bool := s ≠ []

def debugOption : OptionForm := { name := "debug" }

def dirOption : OptionForm := { name := "dir", letter := some 'd', value := some isPath }

/-- The options of the commands that generate. -/
def generatorOptions : List OptionForm :=
  [{ name := "config", letter := some 'c', value := some isPath },
    { name := "custom", otherName := some "custom-validation", excludes := some "no-custom" },
    { name := "no-custom", excludes := some "custom" },
    { name := "translation", excludes := some "no-translation" },
    { name := "no-translation", excludes := some "translation" },
    { name := "language", value := some fun v => (Language.ofName? v).isSome },
    { name := "format-engine", value := some fun v => (Engine.ofName? v).isSome },
    { name := "filter", value := some fun _ => true }]

/-- The options of a command. -/
def optionsOf (command : Text) : List OptionForm :=
  debugOption ::
    if command = "generate" then dirOption :: { name := "dry-run" } :: generatorOptions
    else if command = "check" then dirOption :: generatorOptions
    else if command = "init" then
      [{ name := "output", letter := some 'o', value := some isPath }, { name := "force" }]
    else generatorOptions

/-- The options set so far, with their values. -/
abbrev Settings := List (Text × Text)

/-- The value of an option. -/
def Settings.get? (s : Settings) (name : Text) : Option Text := s.lookup name

/-- Sets an option. -/
def OptionForm.set (f : OptionForm) (value : Text) (settings : Settings) : Except UsageError Settings :=
  if (settings.get? f.name).isSome then .error (.repeated f.name)
  else if f.value.all (· value) then .ok (settings.filter (f.excludes ≠ some ·.1) ++ [(f.name, value)])
  else .error (.badValue f.name value)

/-- What reading options comes to: a request for help, or settings. -/
inductive OptionsRead
  | help
  | settings (settings : Settings)

/-- An option as it stands among the arguments, with the value written to it. -/
structure OptionWord where
  form : OptionForm
  value : Option Text

/-- Whether a word is an option. -/
def isOptionWord (word : Text) : Bool := word.head? = some '-' && word.length ≠ 1

/-- The option that a word stands for; nothing when it asks for help. -/
def optionWord? (forms : List OptionForm) (word : Text) : Except UsageError (Option OptionWord) :=
  match word with
  | '-' :: '-' :: rest =>
    let (name, value) : Text × Option Text :=
      ((Text.splitOnce? (· = '=') rest).map fun (name, value) => (name, some value)).getD (rest, none)
    if name = "help" then (if value.isSome then .error (.unexpectedValue name) else .ok none)
    else
      match forms.find? fun f => f.name = name || f.otherName = some name with
      | some form => .ok (some ⟨form, value⟩)
      | none => .error (.unknownOption word)
  | '-' :: 'h' :: _ => .ok none
  | '-' :: letter :: rest =>
    match forms.find? fun f => f.letter = some letter with
    | some form => .ok (some ⟨form, if rest = [] then none else some ((Text.strip? ['='] rest).getD rest)⟩)
    | none => .error (.unknownOption word)
  | _ => .error (.unexpectedWord word)

/-- Reads the options of a command. -/
def readOptions (forms : List OptionForm) (settings : Settings) : List Text → Except UsageError OptionsRead
  | [] => .ok (.settings settings)
  | word :: rest =>
    if word = "--" then
      match rest with
      | [] => .ok (.settings settings)
      | next :: _ => .error (.unexpectedWord next)
    else
      match optionWord? forms word with
      | .error e => .error e
      | .ok none => .ok .help
      | .ok (some ⟨form, written⟩) =>
        match form.value, written, rest with
        | none, some _, _ => .error (.unexpectedValue form.name)
        | none, none, rest => (form.set [] settings).bind (readOptions forms · rest)
        | some _, some value, rest => (form.set value settings).bind (readOptions forms · rest)
        | some _, none, [] => .error (.missingValue form.name)
        | some _, none, value :: rest =>
          if isOptionWord value then .error (.missingValue form.name)
          else (form.set value settings).bind (readOptions forms · rest)

/-! ### Commands -/

/-- Whether one of two flags that exclude each other is set. -/
def Settings.either? (s : Settings) (on off : Text) : Option Bool :=
  if (s.get? on).isSome then some true else if (s.get? off).isSome then some false else none

def Settings.options (s : Settings) : Options where
  config := s.get? "config"
  overrides :=
    ⟨s.either? "custom" "no-custom", s.either? "translation" "no-translation",
      (s.get? "language").bind Language.ofName?, (s.get? "format-engine").bind Engine.ofName?⟩
  filter := s.get? "filter"

/-- The commands by name. -/
def commandNames : List Text := ["generate", "plugin", "check", "init"]

/-- The command with a name and settings. -/
def Settings.command (s : Settings) (name : Text) : Command :=
  let dir := (s.get? "dir").getD "."
  if name = "generate" then .generate dir (s.get? "dry-run").isSome s.options
  else if name = "check" then .check dir s.options
  else if name = "init" then .init ((s.get? "output").getD Config.fileName) (s.get? "force").isSome
  else .plugin s.options

/-- Reads the arguments of a command. -/
def readCommand (name : Text) (args : List Text) : Except UsageError Request :=
  match readOptions (optionsOf name) [] args with
  | .error e => .error e
  | .ok .help => .ok .help
  | .ok (.settings s) => .ok (.run (s.command name))

/-- Reads a request from arguments. -/
def readRequest (debug : Bool) : List Text → Except UsageError Request
  | [] => .error .noCommand
  | word :: rest =>
    if word = "--debug" then (if debug then .error (.repeated "debug") else readRequest true rest)
    else if word = "--version" || (word.take 2 = "-V") then .ok .version
    else if word = "--help" || (word.take 2 = "-h") then .ok .help
    else if isOptionWord word then .error (.unknownOption word)
    else if word = "help" then
      match rest with
      | [] => .ok .help
      | topic :: _ =>
        if commandNames.contains topic || topic = "help" then .ok .help else .error (.unknownCommand topic)
    else if commandNames.contains word then readCommand word rest
    else .error (.unknownCommand word)

end RuleWeaver.CommandLine
