import RuleWeaver.Candidate

/-!
# Required rules

The custom rules that a registry must contain: the seeded ones and those that candidates refer to.  The parameters of
the first reference to a tag count; a later reference with other parameters is a conflict.
-/

namespace RuleWeaver

/-- A custom rule that must be registered. -/
structure Requirement where
  tag : Text
  function : Text
  /-- The parameters of the first reference. -/
  params : Option (List Text)
  /-- Whether a candidate refers to the rule. -/
  referenced : Bool
deriving DecidableEq, Repr

/-- A reference to a rule with other parameters than the first one. -/
structure Conflict where
  tag : Text
  /-- The parameters of the first reference. -/
  kept : Option (List Text)
  /-- The parameters of this reference. -/
  ignored : Option (List Text)
  /-- The type that makes this reference. -/
  type : Text
deriving DecidableEq, Repr

/-- The required rules in ascending order of their tags, each tag once, and the conflicts in order of occurrence. -/
structure Requirements where
  rules : List Requirement
  conflicts : List Conflict
deriving DecidableEq, Repr

namespace Requirements

/-- The rules that are always required. -/
def seeded : Requirements := ⟨Rule.seeded.map fun (tag, function) => ⟨tag, function, none, false⟩, []⟩

def get? (rs : Requirements) (tag : Text) : Option Requirement := rs.rules.find? (·.tag = tag)

/-- Puts a rule at its place, instead of the one with its tag if there is one. -/
def put (r : Requirement) : List Requirement → List Requirement
  | [] => [r]
  | x :: xs =>
    if r.tag = x.tag then r :: xs else if Text.le r.tag x.tag then r :: x :: xs else x :: put r xs

/-- Takes in a reference that a type makes. -/
def note (rs : Requirements) (type : Text) (rule : Rule) : Requirements :=
  match rs.get? rule.tag with
  | none => { rs with rules := put ⟨rule.tag, Rule.defaultFunction rule.tag, rule.params, true⟩ rs.rules }
  | some old =>
    if !old.referenced then { rs with rules := put { old with params := rule.params, referenced := true } rs.rules }
    else if old.params = rule.params then rs
    else { rs with conflicts := rs.conflicts ++ [⟨rule.tag, old.params, rule.params, type⟩] }

/-- The references to custom rules, each with the type that makes it, in source order. -/
def occurrences (candidates : List Candidate) : List (Text × Rule) :=
  candidates.flatMap fun c => (c.rules.filter (·.isCustom)).map (c.name, ·)

/-- The rules that candidates require; without `custom` the seeded ones alone. -/
def collect (candidates : List Candidate) (custom : Bool) : Requirements :=
  if custom then (occurrences candidates).foldl (fun rs (type, rule) => rs.note type rule) seeded else seeded

end Requirements

end RuleWeaver
