import RuleWeaver.Source.Fault

/-!
# Errors

Everything that can end a run, by cause.  Each error names the file it concerns, and `Error.message` words it.
-/

namespace RuleWeaver

/-- Why a file could not be read or written. -/
inductive FileFault
  | notFound
  /-- There is no text where one was expected. -/
  | absent
  | exists
  | notADirectory
  | isADirectory
  | invalidText
deriving DecidableEq, Repr

def FileFault.message : FileFault → Text
  | .notFound => "No such file or directory (os error 2)"
  | .absent => "entity not found"
  | .exists => "File exists (os error 17)"
  | .notADirectory => "Not a directory (os error 20)"
  | .isADirectory => "Is a directory (os error 21)"
  | .invalidText => "stream did not contain valid UTF-8"

/-- Why a text does not pass the formatter. -/
inductive FormatError
  | syntaxError (e : Source.SyntaxError)
  | tool (name message : Text)
deriving DecidableEq, Repr

def FormatError.message : FormatError → Text
  | .syntaxError e => e.message
  | .tool name message => name ++ " failed: " ++ message

/-- Why new code could not be merged into a file. -/
inductive MergeError
  | format (e : FormatError)
  /-- There is no place for the new code. -/
  | anchorNotFound (anchor : Text)
deriving DecidableEq, Repr

def MergeError.message : MergeError → Text
  | .format e => "merged output is not valid Go: " ++ e.message
  | .anchorNotFound anchor => "could not find " ++ anchor ++ " in the existing file"

/-- Why a run ends. -/
inductive Error
  | directoryNotFound (path : Text)
  | noTypesFiles (path suffix : Text)
  | invalidPattern (pattern reason : Text)
  | source (file : Text) (e : Source.SyntaxError)
  | unreadable (file : Text) (cause : FileFault)
  | merge (file : Text) (e : MergeError)
  | format (file : Text) (e : FormatError)
  | configNotFound (path : Text)
  | configExists (path : Text)
  | configInvalid (path : Text)
  | configValue (key reason : Text)
  | configUnreadable (path : Text) (cause : FileFault)
  | createDirectory (path : Text) (cause : FileFault)
  | writeFile (path : Text) (cause : FileFault)
  | payloadUnreadable (cause : FileFault)
  | payloadInvalid
  | outOfDate (summary : Text)
  | access (cause : FileFault)
deriving DecidableEq, Repr

/-- The wording of an error. -/
def Error.message : Error → Text
  | .directoryNotFound path => "Failed to scan directory: Directory not found: " ++ path
  | .noTypesFiles path suffix =>
    "Failed to scan directory: No files ending in '" ++ suffix ++ "' found in: " ++ path
  | .invalidPattern pattern reason =>
    "Failed to scan directory: Invalid filter pattern '" ++ pattern ++ "': " ++ reason
  | .source file e => "Failed to parse source file: Syntax error in " ++ file ++ ":" ++ e.message
  | .unreadable file cause =>
    "Failed to parse source file: Failed to read " ++ file ++ ": " ++ cause.message
  | .merge file e => "Failed to merge " ++ file ++ ": " ++ e.message
  | .format file e => "Failed to format " ++ file ++ ": " ++ e.message
  | .configNotFound path => "Failed to load configuration: Configuration file not found: " ++ path
  | .configExists path =>
    "Failed to load configuration: Configuration file already exists: " ++ path ++ " (use --force to overwrite)"
  | .configInvalid path => "Failed to load configuration: Invalid TOML in " ++ path
  | .configValue key reason =>
    "Failed to load configuration: Invalid configuration value for '" ++ key ++ "': " ++ reason
  | .configUnreadable path cause =>
    "Failed to load configuration: Failed to read config " ++ path ++ ": " ++ cause.message
  | .createDirectory path cause =>
    "Failed to write output: Failed to create directory " ++ path ++ ": " ++ cause.message
  | .writeFile path cause => "Failed to write output: Failed to write file " ++ path ++ ": " ++ cause.message
  | .payloadUnreadable cause =>
    "Plugin handshake failed: failed to read plugin payload: " ++ cause.message
  | .payloadInvalid => "Plugin handshake failed: invalid plugin payload"
  | .outOfDate summary => "Generated code is out of date: " ++ summary
  | .access cause => "IO error: " ++ cause.message

end RuleWeaver
