import RuleWeaver.Source.Token

/-!
# Statement ends

A line break ends a statement when the token before it can end one.  `endStatements` makes these ends explicit and
drops comments and line breaks.
-/

namespace RuleWeaver.Source

/-- A statement end that does not stand in the text. -/
def Token.impliedSemi (offset : Nat) : Token := ⟨.semi, [], offset⟩

/-- Whether a token breaks the line: line breaks, and block comments that contain one. -/
def Token.breaksLine (t : Token) : Bool :=
  t.kind = .newline ∨ (t.kind = .blockComment ∧ '\n' ∈ t.text)

/-- Leaves out comments and line breaks, and puts a statement end where a line break follows a token that can end a
statement.  `ending` tells whether the token before can; `size` is the width of the text, whose end breaks the line
too. -/
def endStatements (size : Nat) (ending : Bool) : List Token → List Token
  | [] => if ending then [.impliedSemi size] else []
  | t :: ts =>
    if t.breaksLine then
      if ending then .impliedSemi t.start :: endStatements size false ts else endStatements size false ts
    else if t.kind.isComment then endStatements size ending ts
    else t :: endStatements size t.kind.endsStatement ts

end RuleWeaver.Source
