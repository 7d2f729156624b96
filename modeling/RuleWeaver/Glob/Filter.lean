import RuleWeaver.Glob.Basic
import RuleWeaver.Snippet

/-!
# Filters

The notation of filters: `?` is one character and `*` any number of them, separators included; `**` is a whole
component and stands for any number of folders; `[...]` is a character of a class and `[!...]` one outside it.
-/

namespace RuleWeaver.Glob

/-- What is wrong with a filter. -/
inductive FilterFault
  | wildcards
  | recursiveWildcard
  | range
deriving DecidableEq, Repr

/-- A fault with the place in the filter, counted in characters. -/
structure FilterError where
  position : Nat
  fault : FilterFault
deriving DecidableEq, Repr

def FilterFault.message : FilterFault → Text
  | .wildcards => "wildcards are either regular \x60*\x60 or recursive \x60**\x60"
  | .recursiveWildcard => "recursive wildcards must form a single path component"
  | .range => "invalid range pattern"

def FilterError.message (e : FilterError) : Text :=
  "Pattern syntax error near position " ++ Nat.toDigits 10 e.position ++ ": " ++ e.fault.message

/-- Cuts a class behind its closing bracket, which is not the first character. -/
def cutClass? : Text → Option (Text × Text)
  | [] => none
  | c :: s => (Text.splitOnce? (· = ']') s).map fun (inner, rest) => (c :: inner, rest)

theorem cutClass?_shorter {s inner rest : Text} (h : cutClass? s = some (inner, rest)) : rest.length < s.length := by
  cases s with
  | nil => simp [cutClass?] at h
  | cons c s =>
    obtain ⟨⟨a, b⟩, h', e⟩ := Option.map_eq_some_iff.1 h
    cases e
    have := Text.splitOnce?_length h'
    simp only [List.length_cons]
    omega

/-- The ranges of a class; three characters with `-` in the middle are a range. -/
def filterRanges : Text → List (Char × Char)
  | a :: '-' :: b :: s => (a, b) :: filterRanges s
  | a :: s => (a, a) :: filterRanges s
  | [] => []

/-- Reads a filter from a position on; `before` is the character in front. -/
def readFilter (position : Nat) (before : Option Char) (s : Text) : Except FilterError Pattern :=
  match s with
  | [] => .ok []
  | '?' :: s => (readFilter (position + 1) (some '?') s).map (.one .all :: ·)
  | '*' :: '*' :: '*' :: _ => .error ⟨position + 2, .wildcards⟩
  | '*' :: '*' :: s =>
    if position = 0 ∨ before = some '/' then
      match s with
      | [] | ['/'] => .ok [.run .all]
      | '/' :: s => (readFilter (position + 3) (some '/') s).map (.folders :: ·)
      | _ => .error ⟨position + 2, .recursiveWildcard⟩
    else .error ⟨position - 1, .recursiveWildcard⟩
  | '*' :: s => (readFilter (position + 1) (some '*') s).map (.run .all :: ·)
  | '[' :: '!' :: s =>
    match h : cutClass? s with
    | none => .error ⟨position, .range⟩
    | some (inner, rest) =>
      have := cutClass?_shorter h
      (readFilter (position + inner.length + 3) (some ']') rest).map (.one ⟨filterRanges inner, true⟩ :: ·)
  | '[' :: s =>
    match h : cutClass? s with
    | none => .error ⟨position, .range⟩
    | some (inner, rest) =>
      have := cutClass?_shorter h
      (readFilter (position + inner.length + 2) (some ']') rest).map (.one ⟨filterRanges inner, false⟩ :: ·)
  | c :: s => (readFilter (position + 1) (some c) s).map (.one (.single c) :: ·)
termination_by s.length

/-- The pattern that a filter stands for. -/
def ofFilter (filter : Text) : Except FilterError Pattern := readFilter 0 none filter

end RuleWeaver.Glob
