import RuleWeaver.Registry.Requirements
import RuleWeaver.Registry.Basic

/-!
# Additions

What has to be added to a registry and to a types file so that every required rule is registered with a declared
function and every candidate has a `Validate` method.
-/

namespace RuleWeaver

/-- A function to add for a tag. -/
structure NewFunction where
  tag : Text
  name : Text
deriving DecidableEq, Repr

/-- An entry of the rule map: the function that implements a tag. -/
structure Binding where
  tag : Text
  function : Text
deriving DecidableEq, Repr

/-- What has to be added. -/
structure Additions where
  /-- In ascending order of tags, each name once. -/
  functions : List NewFunction
  /-- In ascending order of tags. -/
  bindings : List Binding
  /-- The types that need a `Validate` method, in ascending order. -/
  methods : List Text
  conflicts : List Conflict
deriving DecidableEq, Repr

/-- Keeps the first of the functions with a name. -/
def firstOfEachName (taken : List Text) : List NewFunction → List NewFunction
  | [] => []
  | f :: fs => if taken.contains f.name then firstOfEachName taken fs else f :: firstOfEachName (f.name :: taken) fs

namespace Additions

/-- What candidates and their required rules need beyond a registry and the types that have methods. -/
def compute (candidates : List Candidate) (methodTypes : List Text) (required : Requirements)
    (registry : Registry) : Additions where
  functions := firstOfEachName [] <|
    (required.rules.filter fun r => !registry.isImplemented r.tag).map fun r => ⟨r.tag, registry.boundFunction r.tag⟩
  bindings :=
    (required.rules.filter fun r => !registry.tags.contains r.tag).map fun r => ⟨r.tag, registry.boundFunction r.tag⟩
  methods := Text.toSet ((candidates.map (·.name)).filter fun name => !methodTypes.contains name)
  conflicts := required.conflicts

/-- The additions for a scanned types file. -/
def ofScan (scan : Scan) (custom : Bool) (registry : Registry) : Additions :=
  compute scan.candidates scan.methodTypes (Requirements.collect scan.candidates custom) registry

/-- Whether the registry needs no change. -/
def keepsRegistry (a : Additions) : Bool := a.functions.isEmpty && a.bindings.isEmpty

/-- Whether nothing needs a change. -/
def isEmpty (a : Additions) : Bool := a.keepsRegistry && a.methods.isEmpty

end Additions

end RuleWeaver
