import RuleWeaver.Text.Basic

/-!
# Positions

A position is a line and a column, both counted from one; columns count characters.  `position source offset` is the
position of a byte offset; an offset past the end, or inside a character, counts as the end of the text.
-/

namespace RuleWeaver

/-- A place in a text as a reader counts it. -/
structure Position where
  line : Nat
  column : Nat
deriving DecidableEq, Repr

namespace Position

/-- Where a text starts. -/
def first : Position := ⟨1, 1⟩

/-- The position after one more character. -/
def next (p : Position) (c : Char) : Position :=
  if c = '\n' then ⟨p.line + 1, 1⟩ else ⟨p.line, p.column + 1⟩

/-- The position behind a text. -/
def behind (s : Text) : Position := s.foldl next first

end Position

/-- The position of a byte offset. -/
def position (source : Text) (offset : Nat) : Position :=
  Position.behind (((source.splitAt? offset).map (·.1)).getD source)

end RuleWeaver
