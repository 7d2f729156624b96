import RuleWeaver.Detection.Calls
import RuleWeaver.Detection.Functions
import RuleWeaver.Detection.Maps
import RuleWeaver.Rule.Basic

/-!
# What a registry file declares

`Registry.ofSource` gathers what the recognisers find in a registry file.  A tag counts as registered when the rule
map has an entry for it or a call registers it; of several functions for a tag the first one counts, entries before
calls.
-/

namespace RuleWeaver

/-- What a registry file declares already. -/
structure Registry where
  /-- The functions without receiver, in ascending order. -/
  functions : List Text
  /-- The registered tags, in ascending order. -/
  tags : List Text
  /-- The functions registered by name, for each tag the one that counts first. -/
  bindings : List (Text × Text)
  registrations : List RegistrationCall
  ruleMap : Option MapBraces
  /-- The text of the rule map with its braces. -/
  ruleMapText : Option Text
deriving DecidableEq, Repr

namespace Registry

/-- What a file declares that does not exist. -/
def empty : Registry := ⟨[], [], [], [], none, none⟩

def ofSource (source : Text) : Registry :=
  let ruleMap := Detection.findMap? Detection.ruleMapHead source
  let registrations := Detection.registrations source
  let entries := (ruleMap.map (·.entries source)).getD []
  { functions := Detection.functions source
    tags := Text.toSet (entries.map (·.key) ++ registrations.map (·.tag))
    bindings := entries.filterMap (fun e => e.value.map (e.key, ·)) ++
      registrations.filterMap (fun r => r.function.map (r.tag, ·))
    registrations
    ruleMap
    ruleMapText := ruleMap.map (·.text source) }

/-- Adds functions that the rest of the package declares. -/
def withFunctions (s : Registry) (names : List Text) : Registry :=
  { s with functions := names.foldl (fun set name => Text.insert name set) s.functions }

/-- The function registered for a tag, or else its default name. -/
def boundFunction (s : Registry) (tag : Text) : Text := (s.bindings.lookup tag).getD (Rule.defaultFunction tag)

/-- Whether the function for a tag is declared, in the package or, if its name is qualified, in another one. -/
def isImplemented (s : Registry) (tag : Text) : Bool :=
  (s.boundFunction tag).contains '.' || s.functions.contains (s.boundFunction tag)

end Registry

end RuleWeaver
