import RuleWeaver.Document.Basic
import RuleWeaver.Error
import RuleWeaver.Registry.Rebuild
import RuleWeaver.Registry.Rendering
import RuleWeaver.Source.Parser

/-!
# Rendering registry files

Where there is no file a new one is made.  Where the rule map is found, missing entries go into it and missing functions
to the end.  Otherwise the file is built anew.
-/

namespace RuleWeaver

open Source (Tree)

/-- A registry file that did not exist. -/
def newRegistry (package : Text) (additions : Additions) : Text :=
  registryText package
    (⟨none, Snippet.validatorPath⟩ :: (if needsRegexp additions.functions then [⟨none, "regexp"⟩] else []))
    (additions.bindings.map fun b => (b.tag, b.function)) [] (functionTexts additions.functions)

/-- An existing registry file with what is missing merged in. -/
def mergeRegistry (existing : Text) (tree : Tree) (ruleMap : MapBraces) (additions : Additions) : Text :=
  let d := Document.ofText existing
  let d :=
    if additions.bindings.isEmpty then d
    else
      d.replace ⟨ruleMap.opening, ruleMap.closing + 1⟩
        (.map ⟨ruleMap.body existing, additions.bindings.map fun b => (b.tag, .name b.function)⟩)
  let d :=
    if needsRegexp additions.functions ∧ (tree.importOf? "regexp").isNone then d.withImport tree ⟨none, "regexp"⟩
    else d
  ((functionTexts additions.functions).foldl (fun d s => d.append (.function s)) d).render

/-- What becomes of a registry file; `file` names it in errors. -/
def registryRendering (file : Text) (existing : Option Text) (package : Text) (additions : Additions)
    (registry : Registry) (required : Requirements) : Except Error Rendering :=
  match existing with
  | none => .ok (.created (newRegistry package additions))
  | some existing =>
    if additions.keepsRegistry then .ok .unchanged
    else
      match Source.parse existing with
      | .error e => .error (.source file e)
      | .ok tree =>
        match registry.ruleMap with
        | some ruleMap => .ok (.updated (mergeRegistry existing tree ruleMap additions))
        | none => .ok (.regenerated (rebuildRegistry existing tree additions registry required))

end RuleWeaver
