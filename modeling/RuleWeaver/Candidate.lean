import RuleWeaver.Detection.Functions
import RuleWeaver.Rule.Basic
import RuleWeaver.Source.Parser

/-!
# Candidates

The struct types of a source file that get a `Validate` method: those whose name ends with the request suffix, and
those with a field whose tag lists a rule.
-/

namespace RuleWeaver

/-- A field name with the tag of its field, empty when there is none. -/
structure TaggedName where
  name : Text
  tag : Text
deriving DecidableEq, Repr

def TaggedName.rules (f : TaggedName) : List Rule := Rule.ofTag f.tag

/-- A struct type that gets a `Validate` method. -/
structure Candidate where
  name : Text
  fields : List TaggedName
deriving DecidableEq, Repr

/-- The rules of all fields, in field order. -/
def Candidate.rules (c : Candidate) : List Rule := c.fields.flatMap (·.rules)

/-- What a types file asks for. -/
structure Scan where
  package : Text
  /-- In declaration order. -/
  candidates : List Candidate
  /-- The types that have a `Validate` method already, in ascending order. -/
  methodTypes : List Text
  tree : Source.Tree

/-- Every name that a struct declares, with its tag. -/
def taggedNames (fields : List Source.Field) : List TaggedName :=
  fields.flatMap fun f => f.names.map fun name => ⟨name, f.tag.getD []⟩

/-- The candidates among the struct types of a file. -/
def candidatesOf (suffix : Text) (tree : Source.Tree) : List Candidate :=
  tree.structs.filterMap fun (name, fields) =>
    let c : Candidate := ⟨name, taggedNames fields⟩
    let suffixed := suffix ≠ [] && suffix.isSuffixOf name
    if suffixed || c.fields.any (·.rules ≠ []) then some c else none

/-- Scans a types file. -/
def Scan.ofSource (suffix source : Text) : Except Source.SyntaxError Scan :=
  (Source.parse source).map fun tree =>
    ⟨tree.package.name, candidatesOf suffix tree, Detection.methodTypes source, tree⟩

end RuleWeaver
