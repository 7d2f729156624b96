import RuleWeaver.Detection.Shape
import RuleWeaver.Source.Brackets

/-!
# Map literals that exist

Where the rule map and the message map of a package are, and what entries a map literal has.
-/

namespace RuleWeaver

open Source (commentsBlanked)

/-- The braces of a map literal, as offsets. -/
structure MapBraces where
  opening : Nat
  closing : Nat
deriving DecidableEq, Repr

/-- An entry of a map literal, with the value when that begins with a name. -/
structure FoundEntry where
  key : Text
  value : Option Text
deriving DecidableEq, Repr

namespace Detection

/-- Reads an entry up to its value: a string literal that is not empty, a colon, and the name behind it. -/
def readMapEntry? : Recogniser FoundEntry := fun _ s => do
  let s ← Text.strip? "\"" s
  let (closed, n) := Source.quoted '\"' s
  if !closed || n = 1 then none
  let rest ← readShape? [.gap, .text ":", .gap] (s.drop n)
  match readName? isQualified rest with
  | some (name, rest) => return (⟨s.take (n - 1), some name⟩, rest)
  | none => return (⟨s.take (n - 1), none⟩, rest)

/-- The entries in the text between the braces of a map literal. -/
def literalEntries (body : Text) : List FoundEntry := findAll readMapEntry? true (commentsBlanked body)

/-- How the rule map begins, up to its opening brace. -/
def ruleMapHead : List Piece :=
  [.text "var", .space, .text "registerValidation", .gap, .text "=", .gap, .text "map", .gap, .text "[", .gap,
    .text "string", .gap, .text "]", .gap, .text "validator.Func", .gap, .text "\x7b"]

/-- How the message map begins, up to its opening brace. -/
def messageMapHead : List Piece :=
  [.text "var", .space, .text "translationMessages", .gap, .text "=", .gap, .text "map", .gap, .text "[", .gap,
    .text "string", .gap, .text "]", .gap, .text "string", .gap, .text "\x7b"]

/-- The first map literal with the given head. -/
def findMap? (head : List Piece) (source : Text) : Option MapBraces := do
  let behind ← endOfShape? head 0 (commentsBlanked source)
  let closing ← (Source.closingOffset source (behind - 1)).toOption
  return ⟨behind - 1, closing⟩

end Detection

namespace MapBraces

/-- The text between the braces. -/
def body (m : MapBraces) (source : Text) : Text := Text.slice source (m.opening + 1) m.closing

/-- The text with the braces. -/
def text (m : MapBraces) (source : Text) : Text := Text.slice source m.opening (m.closing + 1)

def entries (m : MapBraces) (source : Text) : List FoundEntry := Detection.literalEntries (m.body source)

def keys (m : MapBraces) (source : Text) : List Text := (m.entries source).map (·.key)

end MapBraces

end RuleWeaver
