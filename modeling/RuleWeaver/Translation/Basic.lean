import RuleWeaver.Detection.Calls
import RuleWeaver.Detection.Maps
import RuleWeaver.Registry.Requirements

/-!
# What a translation file registers

The tags that have a message, in the message map or by a call, and the required tags that have none.
-/

namespace RuleWeaver

/-- What a translation file registers already. -/
structure Translations where
  /-- The tags with a message, in ascending order. -/
  tags : List Text
  messageMap : Option MapBraces
deriving DecidableEq, Repr

namespace Translations

/-- What a file registers that does not exist. -/
def empty : Translations := ⟨[], none⟩

def ofSource (source : Text) : Translations :=
  let messageMap := Detection.findMap? Detection.messageMapHead source
  ⟨Text.toSet (((messageMap.map (·.keys source)).getD []) ++ Detection.translations source), messageMap⟩

/-- The required tags without a message, in ascending order. -/
def missing (s : Translations) (required : Requirements) : List Text :=
  (required.rules.map (·.tag)).filter fun tag => !s.tags.contains tag

end Translations

end RuleWeaver
