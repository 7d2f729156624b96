import RuleWeaver.Source.Lexer

/-!
# Comments

Where the comments of a text are, and the text with its comments blanked.  Neither fails on malformed text.
-/

namespace RuleWeaver.Source

/-- The ranges of all comments. -/
def commentRanges (source : Text) : List Span :=
  (tokens source).filterMap fun t => if t.kind.isComment then some t.span else none

/-- A text of the same width and with the same line breaks, otherwise blank. -/
def blanked (s : Text) : Text :=
  s.flatMap fun c => if c = '\n' then ['\n'] else List.replicate c.utf8Size ' '

/-- The text with every comment blanked; all other text stays at its offset. -/
def commentsBlanked (source : Text) : Text :=
  (lex source).flatMap fun l => if l.kind.isComment then blanked l.text else l.text

/-- The last significant token; nothing when text that begins no token follows it. -/
def lastCodeToken? (source : Text) : Option Token :=
  (tokens source).foldl
    (fun last t => if t.kind = .stray then none else if t.kind.isSignificant then some t else last) none

end RuleWeaver.Source
