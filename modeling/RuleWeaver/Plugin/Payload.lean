import RuleWeaver.Text.Hex

/-!
# Plugin payloads

A plugin is told about the project by a JSON text: an object with the fields below, or a list of them in order.  Fields
that are not known may hold anything.
-/

namespace RuleWeaver.Plugin

structure Payload where
  /-- The interface description that the project was generated from. -/
  api : Text
  /-- The folder of the project. -/
  dir : Text
  /-- How files are named. -/
  style : Text
deriving DecidableEq, Repr

namespace Payload

/-! ### Texts -/

def dropSpace (s : Text) : Text := s.dropWhile fun c => c = ' ' || c = '\n' || c = '\t' || c = '\r'

/-- The character of a one-letter escape. -/
def escaped? (c : Char) : Option Char :=
  if c = 'b' then some '\x08'
  else if c = 'f' then some '\x0C'
  else if c = 'n' then some '\n'
  else if c = 'r' then some '\r'
  else if c = 't' then some '\t'
  else if c = '\"' || c = '\\' || c = '/' then some c
  else none

/-- Whether a code is the first half of a pair. -/
def isHigh (code : Nat) : Bool := 0xD800 ≤ code && code ≤ 0xDBFF

/-- Whether a code is the second half of a pair. -/
def isLow (code : Nat) : Bool := 0xDC00 ≤ code && code ≤ 0xDFFF

/-- The code that two halves of a pair stand for. -/
def pairCode (high low : Nat) : Nat := 0x10000 + (high - 0xD800) * 0x400 + (low - 0xDC00)

/-- Reads a text from behind its opening quote.  `high` is the first half of a pair whose second half has to follow. -/
def text? (high : Option Nat) : Text → Option (Text × Text)
  | [] => none
  | '\\' :: 'u' :: a :: b :: c :: d :: s =>
    (Text.number? 16 [a, b, c, d]).bind fun code =>
      if high.isNone && isHigh code then text? (some code) s
      else
        let whole : Option Char :=
          match high with
          | none => Text.charOf? code
          | some high => if isLow code then Text.charOf? (pairCode high code) else none
        whole.bind fun c => (text? none s).map fun (t, rest) => (c :: t, rest)
  | '\\' :: c :: s =>
    if high.isSome then none
    else (escaped? c).bind fun c => (text? none s).map fun (t, rest) => (c :: t, rest)
  | c :: s =>
    if high.isSome then none
    else if c = '\"' then some ([], s)
    else if c.toNat < 0x20 || c = '\\' then none
    else (text? none s).map fun (t, rest) => (c :: t, rest)

/-- Reads a text with its opening quote. -/
def quoted? (s : Text) : Option (Text × Text) :=
  match dropSpace s with
  | '\"' :: s => text? none s
  | _ => none

/-! ### Values of no interest -/

/-- The rest behind a text of no interest, from behind its opening quote. -/
def skipText? : Text → Option Text
  | [] => none
  | '\\' :: 'u' :: a :: b :: c :: d :: s => (Text.number? 16 [a, b, c, d]).bind fun _ => skipText? s
  | '\\' :: c :: s => (escaped? c).bind fun _ => skipText? s
  | c :: s => if c = '\"' then some s else if c.toNat < 0x20 || c = '\\' then none else skipText? s

/-- The rest behind at least one digit. -/
def skipDigits? (s : Text) : Option Text :=
  if s.head?.any Char.isDigit then some (s.dropWhile Char.isDigit) else none

/-- The rest behind an exponent, if there is one. -/
def skipExponent? (s : Text) : Option Text :=
  match s with
  | [] => some []
  | c :: s =>
    if c = 'e' || c = 'E' then
      match s with
      | '+' :: s => skipDigits? s
      | '-' :: s => skipDigits? s
      | s => skipDigits? s
    else some (c :: s)

/-- The rest behind a fraction, if there is one. -/
def skipFraction? (s : Text) : Option Text :=
  match s with
  | '.' :: s => skipDigits? s
  | s => some s

/-- The rest behind a number, which has no needless zero in front. -/
def skipNumber? (s : Text) : Option Text :=
  let s := (Text.strip? ['-'] s).getD s
  let whole :=
    match s with
    | '0' :: s => if s.head?.any Char.isDigit then none else some s
    | s => skipDigits? s
  (whole.bind skipFraction?).bind skipExponent?

mutual

/-- The rest behind a value of no interest. -/
def skipValue? (fuel : Nat) (s : Text) : Option Text :=
  match fuel, dropSpace s with
  | 0, _ => none
  | _ + 1, '\"' :: s => skipText? s
  | fuel + 1, '[' :: s =>
    match dropSpace s with
    | ']' :: s => some s
    | s => skipItems? fuel s
  | fuel + 1, '\x7b' :: s =>
    match dropSpace s with
    | '\x7d' :: s => some s
    | s => skipMembers? fuel s
  | _ + 1, s => (["null", "true", "false"].findSome? fun word : String => Text.strip? word s) <|> skipNumber? s

/-- The rest behind the items of a list and its closing bracket. -/
def skipItems? (fuel : Nat) (s : Text) : Option Text :=
  match fuel with
  | 0 => none
  | fuel + 1 =>
    (skipValue? fuel s).bind fun s =>
      match dropSpace s with
      | ',' :: s => skipItems? fuel s
      | ']' :: s => some s
      | _ => none

/-- The rest behind the members of an object and its closing brace. -/
def skipMembers? (fuel : Nat) (s : Text) : Option Text :=
  match fuel with
  | 0 => none
  | fuel + 1 =>
    (Text.strip? ['\"'] (dropSpace s)).bind fun s =>
      (skipText? s).bind fun s =>
        (Text.strip? [':'] (dropSpace s)).bind fun s =>
          (skipValue? fuel s).bind fun s =>
            match dropSpace s with
            | ',' :: s => skipMembers? fuel s
            | '\x7d' :: s => some s
            | _ => none

end

/-! ### Payloads -/

/-- The fields that are known, in their order. -/
def fieldNames : List Text := ["ApiFilePath", "Dir", "Style"]

/-- Reads members up to and with the closing brace: those that are known, each at most once. -/
def members? (fuel : Nat) (known : List (Text × Text)) (s : Text) : Option (List (Text × Text) × Text) :=
  match fuel with
  | 0 => none
  | fuel + 1 => do
    let (key, s) ← quoted? s
    let s ← Text.strip? [':'] (dropSpace s)
    let (known, s) ←
      if fieldNames.contains key then
        if (known.lookup key).isSome then none else (quoted? s).map fun (v, s) => ((key, v) :: known, s)
      else (skipValue? fuel s).map (known, ·)
    match dropSpace s with
    | ',' :: s => members? fuel known s
    | '\x7d' :: s => some (known, s)
    | _ => none

/-- Reads texts up to and with the closing bracket. -/
def items? (fuel : Nat) (s : Text) : Option (List Text × Text) :=
  match fuel with
  | 0 => none
  | fuel + 1 => do
    let (v, s) ← quoted? s
    match dropSpace s with
    | ',' :: s => (items? fuel s).map fun (vs, s) => (v :: vs, s)
    | ']' :: s => some ([v], s)
    | _ => none

/-- The payload of known members; only the folder has to be there. -/
def ofMembers? (known : List (Text × Text)) : Option Payload :=
  (known.lookup "Dir".toList).map fun dir =>
    ⟨(known.lookup "ApiFilePath".toList).getD [], dir, (known.lookup "Style".toList).getD []⟩

/-- The payload of a list. -/
def ofItems? : List Text → Option Payload
  | [api, dir] => some ⟨api, dir, []⟩
  | [api, dir, style] => some ⟨api, dir, style⟩
  | _ => none

/-- Reads a payload. -/
def read? (s : Text) : Option Payload := do
  let fuel := 2 * s.length + 2
  let (payload, s) ←
    match dropSpace s with
    | '\x7b' :: s => (members? fuel [] s).bind fun (known, s) => (ofMembers? known).map (·, s)
    | '[' :: s => (items? fuel s).bind fun (items, s) => (ofItems? items).map (·, s)
    | _ => none
  if dropSpace s = [] then some payload else none

end Payload

end RuleWeaver.Plugin
