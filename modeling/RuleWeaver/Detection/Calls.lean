import RuleWeaver.Detection.Shape

/-!
# Registration calls that exist

Rules and translations that are registered by calls instead of map entries.
-/

namespace RuleWeaver

/-- A call that registers a rule, with the function when it is passed by name. -/
structure RegistrationCall where
  tag : Text
  function : Option Text
deriving DecidableEq, Repr

namespace Detection

open Source (commentsBlanked)

/-- Reads a `RegisterValidation` call as far as its second argument is a name. -/
def readRegistration? : Recogniser RegistrationCall := fun _ s => do
  let s ← readShape? [.text "RegisterValidation(", .gap] s
  let (tag, rest) ← readPlainString? s
  let rest ← readShape? [.gap, .text ",", .gap] rest
  let named : Option (Text × Text) := do
    let (name, rest) ← readName? isQualified rest
    match skipGap rest with
    | ',' :: rest => return (name, rest)
    | ')' :: rest => return (name, rest)
    | _ => none
  match named with
  | some (name, rest) => return (⟨tag, if name = "func".toList then none else some name⟩, rest)
  | none => return (⟨tag, none⟩, rest)

/-- Reads a call that registers a translation and answers with its tag. -/
def readTranslation? : Recogniser Text := fun _ s => do
  let s ← (Text.strip? "RegisterTranslation" s).orElse fun _ => Text.strip? "trans.Add" s
  let s ← readShape? [.text "(", .gap] s
  readPlainString? s

/-- The rules registered by calls, in source order. -/
def registrations (source : Text) : List RegistrationCall := findAll readRegistration? true (commentsBlanked source)

/-- The tags whose translation is registered by a call, in ascending order. -/
def translations (source : Text) : List Text := Text.toSet (findAll readTranslation? true (commentsBlanked source))

end Detection

end RuleWeaver
