/-!
# Text

Text is a list of characters.  Places in a text are byte offsets into its UTF-8 form, so that they agree with the
offsets other programs report.

* `Text.width_append`: widths add up;
* `Text.splitAt?_width_append`: cutting at the width of a first part gives the two parts back;
* `Text.append_of_splitAt?`: a cut loses nothing.
-/

namespace RuleWeaver

/-- A text, character by character. -/
abbrev Text := List Char

instance : Coe String Text := ⟨String.toList⟩

namespace Text

/-- The number of bytes of the UTF-8 form. -/
def width : Text → Nat
  | [] => 0
  | c :: s => c.utf8Size + width s

@[simp] theorem width_nil : width [] = 0 := rfl

@[simp] theorem width_cons (c : Char) (s : Text) : width (c :: s) = c.utf8Size + width s := rfl

@[simp] theorem width_append (s t : Text) : width (s ++ t) = width s + width t := by
  induction s with
  | nil => simp
  | cons c s ih => simp [ih, Nat.add_assoc]

/-- The text before and after a byte offset; nothing when the offset is past the end or inside a character. -/
def splitAt? : Nat → Text → Option (Text × Text)
  | 0, s => some ([], s)
  | _ + 1, [] => none
  | n + 1, c :: s =>
    if c.utf8Size ≤ n + 1 then (splitAt? (n + 1 - c.utf8Size) s).map fun (a, b) => (c :: a, b) else none

theorem append_of_splitAt? {n : Nat} {s a b : Text} (h : splitAt? n s = some (a, b)) : a ++ b = s := by
  induction s generalizing n a b with
  | nil => cases n <;> simp_all [splitAt?]
  | cons c s ih =>
    cases n with
    | zero => simp_all [splitAt?]
    | succ n =>
      simp only [splitAt?] at h
      split at h
      · obtain ⟨⟨a', b'⟩, h', e⟩ := Option.map_eq_some_iff.1 h
        cases e
        simp [ih h']
      · cases h

theorem splitAt?_width_append (s t : Text) : splitAt? (width s) (s ++ t) = some (s, t) := by
  induction s with
  | nil => cases t <;> simp [splitAt?]
  | cons c s ih =>
    obtain ⟨k, hk⟩ : ∃ k, c.utf8Size + width s = k + 1 :=
      ⟨c.utf8Size + width s - 1, by have := c.utf8Size_pos; omega⟩
    have hle : c.utf8Size ≤ k + 1 := by omega
    have hsub : k + 1 - c.utf8Size = width s := by omega
    simp [hk, splitAt?, hle, hsub, ih]

/-- The text from a byte offset on, empty when the offset is no boundary of the text. -/
def dropBytes (n : Nat) (s : Text) : Text := ((splitAt? n s).map (·.2)).getD []

/-- The text between two byte offsets. -/
def slice (s : Text) (start stop : Nat) : Text :=
  (splitAt? (stop - start) (dropBytes start s)).elim (dropBytes start s) (·.1)

/-- The number of characters of the longest beginning whose characters all satisfy `p`. -/
def run (p : Char → Bool) (s : Text) : Nat := (s.takeWhile p).length

/-- What follows `lead`, if the text begins with it. -/
def strip? : Text → Text → Option Text
  | [], s => some s
  | _ :: _, [] => none
  | c :: lead, d :: s => if c = d then strip? lead s else none

/-- What precedes `tail`, if the text ends with it. -/
def stripEnd? (tail s : Text) : Option Text := (strip? tail.reverse s.reverse).map List.reverse

/-- Whether `part` occurs in the text as a run of neighbouring characters. -/
def hasPart (part : Text) : Text → Bool
  | [] => part.isEmpty
  | c :: s => part.isPrefixOf (c :: s) || hasPart part s

/-- Texts are ordered by their characters, which is also the order of their UTF-8 bytes. -/
def le : Text → Text → Bool
  | [], _ => true
  | _ :: _, [] => false
  | c :: s, d :: t => if c = d then le s t else c < d

end Text

end RuleWeaver
