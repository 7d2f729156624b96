import RuleWeaver.Detection.Shape

/-!
# Functions and variables that exist

`methodTypes` are the types that have a `Validate` method, `functions` the functions at the beginning of a line,
`hasValidateVar` tells whether a line begins with a declaration of `validate`.
-/

namespace RuleWeaver.Detection

open Source (commentsBlanked)

/-- Reads a receiver between its parentheses: a type, maybe behind a name or a star or both. -/
def readReceiver? (s : Text) : Option (Text × Text) :=
  let plain (s : Text) : Option (Text × Text) := do
    let s := ((Text.strip? "*" s).getD s)
    let (type, rest) ← readWord? (skipGap s)
    let rest ← readShape? [.gap, .text ")"] rest
    return (type, rest)
  let named : Option (Text × Text) := do
    let (_, rest) ← readWord? s
    let rest ← skipSpace? rest
    plain rest
  named.orElse fun _ => plain s

/-- Reads the head of a `Validate` method and answers with its receiver type. -/
def readMethodHead? : Recogniser Text := fun _ s => do
  let s ← readShape? [.text "func", .gap, .text "(", .gap] s
  let (type, rest) ← readReceiver? s
  let rest ← readShape? [.gap, .text "Validate", .gap, .text "(", .gap, .text ")"] rest
  return (type, rest)

/-- Reads the head of a function at the beginning of a line and answers with its name. -/
def readFunction? : Recogniser Text := fun fresh s =>
  if fresh then do
    let s ← readShape? [.text "func", .space] s
    let (name, rest) ← readName? Unicode.isWord s
    match skipGap rest with
    | '(' :: rest => return (name, rest)
    | '[' :: rest => return (name, rest)
    | _ => none
  else none

/-- Reads the beginning of a declaration of `validate` at the beginning of a line. -/
def readValidateVar? : Recogniser Unit := fun fresh s =>
  if fresh then do
    let rest ← readShape? [.text "var", .space, .text "validate"] s
    if rest.head?.any Unicode.isWord then none else return ((), rest)
  else none

/-- The types that have a `Validate` method, in ascending order. -/
def methodTypes (source : Text) : List Text := Text.toSet (findAll readMethodHead? true (commentsBlanked source))

/-- The names of the functions without receiver, in ascending order. -/
def functions (source : Text) : List Text := Text.toSet (findAll readFunction? true (commentsBlanked source))

/-- Whether `validate` is declared. -/
def hasValidateVar (source : Text) : Bool := !(findAll readValidateVar? true (commentsBlanked source)).isEmpty

end RuleWeaver.Detection
