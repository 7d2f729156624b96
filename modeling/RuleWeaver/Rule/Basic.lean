import RuleWeaver.Text.Words
import RuleWeaver.Unicode.Uppercase

/-!
# Validation rules

A struct tag such as `json:"mobile" validate:"required,mobile"` lists rules under its `validate` key.  A rule is either
implemented by the validation engine or needs a registered function, whose name `defaultFunction` derives from the tag.
-/

namespace RuleWeaver

/-- One rule of a `validate` key. -/
structure Rule where
  tag : Text
  /-- What stands behind `=`, if there is one. -/
  params : Option (List Text)
deriving DecidableEq, Repr

namespace Rule

/-- The tags that the engine implements. -/
def builtins : List Text :=
  ["required", "email", "url", "ip", "min", "max", "len", "eq", "ne", "lt", "lte", "gt", "gte", "oneof", "numeric",
    "alpha", "alphanum", "omitempty"]

/-- The custom tags that are always registered, with the names of their functions. -/
def seeded : List (Text × Text) := [("idcard", "validateIdCard"), ("mobile", "validateMobile")]

def isCustom (r : Rule) : Bool := !builtins.contains r.tag

/-- Reads a rule such as `gt=0` or `mobile`; nothing when there is no tag. -/
def parse? (token : Text) : Option Rule :=
  let rule : Rule :=
    match Text.splitOnce? (· = '=') (Text.trim token) with
    | some (tag, params) => ⟨Text.trim tag, some (Text.words params)⟩
    | none => ⟨Text.trim token, none⟩
  if rule.tag = [] then none else some rule

/-- A character that may stand in a name, or else an underscore. -/
def nameChar (c : Char) : Char := if Unicode.isAlphanumeric c || c = '_' then c else '_'

/-- The name of the function that implements a tag. -/
def defaultFunction (tag : Text) : Text :=
  match seeded.lookup tag with
  | some name => name
  | none =>
    match tag with
    | [] => "validate"
    | c :: s => "validate" ++ Unicode.toUpper (nameChar c) ++ s.map nameChar

/-- The value of the `validate` key when it stands here. -/
def value? (s : Text) : Option Text :=
  (Text.strip? "validate:\"" s).bind fun rest => (Text.splitOnce? (· = '\"') rest).map (·.1)

/-- The value of the first `validate` key behind white space. -/
def laterValue? : Text → Option Text
  | [] => none
  | c :: s => if Unicode.isSpace c then (value? s).orElse fun _ => laterValue? s else laterValue? s

/-- The rules that a struct tag lists; `,` and `|` both separate them. -/
def ofTag (tag : Text) : List Rule :=
  match (value? tag).orElse fun _ => laterValue? tag with
  | some list => (Text.split (fun c => c = ',' || c = '|') list).filterMap parse?
  | none => []

end Rule

end RuleWeaver
