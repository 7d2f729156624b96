import RuleWeaver.Text.Basic

/-!
# Renderings

What becomes of a generated file.
-/

namespace RuleWeaver

/-- How a generated file comes about. -/
inductive Outcome
  | unchanged
  | created
  | updated
  | regenerated
deriving DecidableEq, Repr

def Outcome.label : Outcome → Text
  | unchanged => "unchanged"
  | created => "created"
  | updated => "updated"
  | regenerated => "regenerated"

inductive Rendering
  /-- The file holds everything required. -/
  | unchanged
  /-- There was no file. -/
  | created (text : Text)
  /-- What was missing is merged into the existing text. -/
  | updated (text : Text)
  /-- The file is built anew around its declarations. -/
  | regenerated (text : Text)
deriving DecidableEq, Repr

namespace Rendering

/-- The new text, if the file changes. -/
def text? : Rendering → Option Text
  | unchanged => none
  | created text | updated text | regenerated text => some text

def outcome : Rendering → Outcome
  | unchanged => .unchanged
  | created _ => .created
  | updated _ => .updated
  | regenerated _ => .regenerated

end Rendering

end RuleWeaver
