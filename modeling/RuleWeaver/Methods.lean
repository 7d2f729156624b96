import RuleWeaver.Document.Basic
import RuleWeaver.Snippet

/-!
# Adding methods

A types file gets a `Validate` method for each type without one, and declares the validator that the package shares
unless it is declared already.
-/

namespace RuleWeaver

open Source (Tree)

/-- The name under which an import of the engine makes it reachable: that of the first import that is not blank. -/
def validatorName? (tree : Tree) : Option (Option Text) :=
  (((tree.imports.flatMap (·.specs)).filter (·.path = Snippet.validatorPath)).map (·.name)).find?
    (· ≠ some "_".toList)

/-- Declares the shared validator behind the imports, and imports the engine if nothing does. -/
def declareValidator (d : Document) (tree : Tree) : Document :=
  let (d, declaration) : Document × Text :=
    match validatorName? tree with
    | some none => (d, Snippet.validatorDeclaration)
    | some (some name) =>
      if name = ".".toList then (d, "var validate = New()") else (d, "var validate = " ++ name ++ ".New()")
    | none => (d.withImport tree ⟨none, Snippet.validatorPath⟩, Snippet.validatorDeclaration)
  d.insertAt (tree.importsEnd?.getD tree.package.span.stop) (.text ("\n\n" ++ declaration))

/-- The source with `Validate` methods for the types, or nothing when it needs no change.  `elsewhere` tells whether
another file of the package declares the shared validator. -/
def addMethods (source : Text) (tree : Tree) (types : List Text) (elsewhere : Bool) : Option Text :=
  let d := Document.ofText source
  let d := if elsewhere || tree.hasVar "validate" then d else declareValidator d tree
  let d := (Text.toSet types).foldl (fun d type => d.append (.function (Snippet.validateMethod type))) d
  if d.hasEdits then some d.render else none

end RuleWeaver
