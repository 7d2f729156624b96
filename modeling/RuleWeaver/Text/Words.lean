import RuleWeaver.Text.Basic
import RuleWeaver.Unicode.Classes

/-!
# Words, lines and sets of texts

Cutting text at separators and white space, replacing parts of it, and finite sets of texts as ascending lists.
-/

namespace RuleWeaver.Text

open Unicode (isSpace)

/-- The text without the white space at its beginning. -/
def trimStart (s : Text) : Text := s.dropWhile isSpace

/-- The text without the white space at its end. -/
def trimEnd (s : Text) : Text := (s.reverse.dropWhile isSpace).reverse

/-- The text without the white space at both ends. -/
def trim (s : Text) : Text := trimEnd (trimStart s)

/-- The pieces between the characters that satisfy `p`; one more than there are such characters. -/
def split (p : Char → Bool) : Text → List Text
  | [] => [[]]
  | c :: s =>
    if p c then [] :: split p s
    else
      match split p s with
      | w :: ws => (c :: w) :: ws
      | [] => [[c]]

/-- The pieces between white space that are not empty. -/
def words (s : Text) : List Text := (split isSpace s).filter (· ≠ [])

/-- The text before and after the first character that satisfies `p`. -/
def splitOnce? (p : Char → Bool) : Text → Option (Text × Text)
  | [] => none
  | c :: s => if p c then some ([], s) else (splitOnce? p s).map fun (a, b) => (c :: a, b)

theorem splitOnce?_length {p : Char → Bool} {s a b : Text} (h : splitOnce? p s = some (a, b)) :
    s.length = a.length + b.length + 1 := by
  induction s generalizing a with
  | nil => simp [splitOnce?] at h
  | cons c s ih =>
    simp only [splitOnce?] at h
    split at h
    · cases h
      simp
    · obtain ⟨⟨a', b'⟩, h', e⟩ := Option.map_eq_some_iff.1 h
      cases e
      simp [ih h']
      omega

/-- The text before the first occurrence of a part, and the text behind it. -/
def cut? (part : Text) : Text → Option (Text × Text)
  | [] => if part = [] then some ([], []) else none
  | c :: s =>
    match strip? part (c :: s) with
    | some rest => some ([], rest)
    | none => (cut? part s).map fun (a, b) => (c :: a, b)

theorem strip?_length {lead s rest : Text} (h : strip? lead s = some rest) :
    s.length = lead.length + rest.length := by
  induction lead generalizing s with
  | nil => cases s <;> simp_all [strip?]
  | cons c lead ih =>
    cases s with
    | nil => simp [strip?] at h
    | cons d s =>
      simp only [strip?] at h
      split at h
      · simp [ih h]; omega
      · cases h

/-- Every occurrence of a part, from the left and without overlaps, replaced. -/
def replaceAll (part new : Text) (s : Text) : Text :=
  match s with
  | [] => []
  | c :: t =>
    match _h : strip? part (c :: t) with
    | some rest => if part = [] then c :: replaceAll part new t else new ++ replaceAll part new rest
    | none => c :: replaceAll part new t
termination_by s.length
decreasing_by
  · simp
  · have := strip?_length _h
    have := List.length_pos_iff.2 ‹¬part = []›
    simp_all
  · simp

/-- Puts texts one behind the other with a separator between them. -/
def join (separator : Text) : List Text → Text
  | [] => []
  | [s] => s
  | s :: t :: ts => s ++ separator ++ join separator (t :: ts)

/-- Adds a text to an ascending list in which no text stands twice. -/
def insert (x : Text) : List Text → List Text
  | [] => [x]
  | y :: ys => if x = y then y :: ys else if le x y then x :: y :: ys else y :: insert x ys

/-- The set of the texts of a list, in ascending order. -/
def toSet (xs : List Text) : List Text := xs.foldl (fun set x => insert x set) []

end RuleWeaver.Text
