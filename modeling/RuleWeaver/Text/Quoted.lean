import RuleWeaver.Text.Basic

/-!
# Quoted text

String literals.  `quote` writes a text as an interpreted literal, `unquote` reads a literal of either form: between
backquotes as it stands, between double quotes with `\n`, `\t` and, for any other escape, the escaped character.
-/

namespace RuleWeaver.Text

/-- One character of an interpreted literal. -/
def quoteChar : Char → Text
  | '\\' => "\\\\"
  | '\"' => "\\\""
  | '\n' => "\\n"
  | '\t' => "\\t"
  | c => [c]

/-- The interpreted literal of a text. -/
def quote (s : Text) : Text := '\"' :: (s.flatMap quoteChar ++ "\"")

/-- Resolves the escapes of an interpreted literal. -/
def unescape : Text → Text
  | [] => []
  | ['\\'] => ['\\']
  | '\\' :: 'n' :: s => '\n' :: unescape s
  | '\\' :: 't' :: s => '\t' :: unescape s
  | '\\' :: c :: s => c :: unescape s
  | c :: s => c :: unescape s

/-- The text between two copies of the mark, if there are two. -/
def between? (mark : Char) (s : Text) : Option Text :=
  (strip? [mark] s).bind (stripEnd? [mark])

/-- The text a literal stands for. -/
def unquote (literal : Text) : Text :=
  match between? '\x60' literal with
  | some raw => raw
  | none => unescape ((between? '\"' literal).getD literal)

end RuleWeaver.Text
