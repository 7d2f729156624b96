import RuleWeaver.Text.Hex
import RuleWeaver.Text.Words

/-!
# Numbers and dates in TOML

Which words are integers, floating-point numbers, dates and times.
-/

namespace RuleWeaver.Toml

/-! ### Numbers -/

/-- Whether a word is groups of characters with single underscores between them. -/
def isGrouped (p : Char → Bool) (s : Text) : Bool :=
  (Text.split (· = '_') s).all fun group => group ≠ [] && group.all p

/-- A word without the sign in front; the sign is true for a minus. -/
def splitSign : Text → Bool × Text
  | '+' :: s => (false, s)
  | '-' :: s => (true, s)
  | s => (false, s)

/-- Whether a word is decimal digits without a needless zero in front. -/
def isDecimal (s : Text) : Bool := isGrouped Char.isDigit s && (s.length = 1 || s.head? ≠ some '0')

/-- The number that grouped digits of a base stand for. -/
def grouped? (base : Nat) (s : Text) : Option Nat :=
  if isGrouped (fun _ => true) s then Text.number? base (s.filter (· ≠ '_')) else none

/-- The integer that a word stands for. -/
def integer? (s : Text) : Option Int :=
  match s with
  | '0' :: 'x' :: s => (grouped? 16 s).map Int.ofNat
  | '0' :: 'o' :: s => (grouped? 8 s).map Int.ofNat
  | '0' :: 'b' :: s => (grouped? 2 s).map Int.ofNat
  | s =>
    let (minus, s) := splitSign s
    if isDecimal s then (grouped? 10 s).map fun n => if minus then -Int.ofNat n else Int.ofNat n else none

/-- Whether a word is an integer of at most 128 bits. -/
def isInteger (s : Text) : Bool :=
  (integer? s).any fun n => -Int.ofNat (Nat.pow 2 127) ≤ n && n < Int.ofNat (Nat.pow 2 128)

/-- Whether `n * 10 ^ e` rounds to a finite number of double precision. -/
def isFinite (n : Nat) (e : Int) : Bool :=
  let bound : Nat := Nat.pow 2 1024 - Nat.pow 2 970
  let size : Int := (Nat.toDigits 10 n).length + e
  if n = 0 || size < 300 then true
  else if 310 < size then false
  else if 0 ≤ e then n * Nat.pow 10 e.toNat < bound
  else n < bound * Nat.pow 10 (-e).toNat

/-- Whether a word without sign is a decimal fraction or has an exponent, and is not too large. -/
def isDecimalFloat (s : Text) : Bool :=
  let (mantissa, exponent) : Text × Option Text :=
    ((Text.splitOnce? (fun c => c = 'e' || c = 'E') s).map fun (a, b) => (a, some b)).getD (s, none)
  let (whole, fraction) : Text × Option Text :=
    ((Text.splitOnce? (· = '.') mantissa).map fun (a, b) => (a, some b)).getD (mantissa, none)
  let sign := splitSign (exponent.getD ['0'])
  let digits := (fraction.getD []).filter (· ≠ '_')
  (fraction.isSome || exponent.isSome) && isDecimal whole && fraction.all (isGrouped Char.isDigit) &&
    isGrouped Char.isDigit sign.2 &&
    match Text.number? 10 (whole.filter (· ≠ '_') ++ digits), grouped? 10 sign.2 with
    | some n, some e => isFinite n ((if sign.1 then -(e : Int) else e) - digits.length)
    | _, _ => false

/-- Whether a word is a floating-point number. -/
def isFloat (s : Text) : Bool :=
  let s := (splitSign s).2
  s = "inf" || s = "nan" || isDecimalFloat s

/-! ### Dates and times -/

/-- Reads a number of so many digits. -/
def digits? (count : Nat) (s : Text) : Option (Nat × Text) :=
  let digits := s.take count
  if digits.length = count && digits.all Char.isDigit then
    (Text.number? 10 digits).map fun n => (n, s.drop count)
  else none

def daysIn (year month : Nat) : Nat :=
  if month = 2 then (if year % 4 = 0 && (year % 100 ≠ 0 || year % 400 = 0) then 29 else 28)
  else if month = 4 || month = 6 || month = 9 || month = 11 then 30
  else 31

/-- Reads a date. -/
def date? (s : Text) : Option Text := do
  let (year, s) ← digits? 4 s
  let (month, s) ← digits? 2 (← Text.strip? ['-'] s)
  let (day, s) ← digits? 2 (← Text.strip? ['-'] s)
  if 1 ≤ month && month ≤ 12 && 1 ≤ day && day ≤ daysIn year month then some s else none

/-- Reads the fraction of a second, if there is one. -/
def fraction? (s : Text) : Option Text :=
  match s with
  | '.' :: s => if (s.head?.any Char.isDigit) then some (s.dropWhile Char.isDigit) else none
  | s => some s

/-- Reads the seconds, if there are any. -/
def seconds? (s : Text) : Option Text :=
  match s with
  | ':' :: s => (digits? 2 s).bind fun (n, s) => if n ≤ 60 then fraction? s else none
  | s => some s

/-- Reads hours and minutes. -/
def clock? (s : Text) : Option Text := do
  let (hour, s) ← digits? 2 s
  let (minute, s) ← digits? 2 (← Text.strip? [':'] s)
  if hour ≤ 23 && minute ≤ 59 then some s else none

/-- Reads a time of day. -/
def time? (s : Text) : Option Text := (clock? s).bind seconds?

/-- Whether a text is empty or a distance from world time. -/
def isOffset (s : Text) : Bool :=
  match s with
  | [] => true
  | ['Z'] => true
  | ['z'] => true
  | '+' :: s => clock? s = some []
  | '-' :: s => clock? s = some []
  | _ => false

/-- Whether a text is a date, a time, or both. -/
def isMoment (s : Text) : Bool :=
  match date? s with
  | some [] => true
  | some (c :: rest) => (c = 'T' || c = 't' || c = ' ') && (time? rest).any isOffset
  | none => time? s = some []

end RuleWeaver.Toml
