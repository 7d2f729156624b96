import RuleWeaver.Text.Words

/-!
# Plugin invocations

As a plugin the program is given its arguments as one, `name="words"`.  `Plugin.arguments` turns them into ordinary
ones.

* `Plugin.arguments_of_option`: arguments that begin with an option stay as they are.
-/

namespace RuleWeaver.Plugin

/-- The commands of the program. -/
def commands : List Text := ["generate", "plugin", "check", "init"]

/-- The names under which the program is known as a plugin. -/
def names : List Text := ["validate", "goctl-validate"]

/-- The command for those who do not name one. -/
def defaultCommand : Text := "plugin"

/-- The text without the quotes at its ends. -/
def trimQuotes (s : Text) : Text :=
  let isQuote (c : Char) : Bool := c = '\"' || c = '\''
  ((s.dropWhile isQuote).reverse.dropWhile isQuote).reverse

/-- The words of an invocation with a command in front. -/
def withCommand : List Text → List Text
  | [] => [defaultCommand]
  | word :: rest =>
    if commands.contains word then word :: rest
    else if names.contains word then defaultCommand :: rest
    else defaultCommand :: word :: rest

/-- The ordinary arguments for those given. -/
def arguments : List Text → List Text
  | [] => []
  | first :: rest =>
    if first.head? = some '-' then first :: rest
    else
      match Text.splitOnce? (· = '=') first with
      | none => first :: rest
      | some (_, value) => withCommand (Text.words (trimQuotes value)) ++ rest

theorem arguments_of_option {first : Text} {rest : List Text} (h : first.head? = some '-') :
    arguments (first :: rest) = first :: rest := by
  simp [arguments, h]

end RuleWeaver.Plugin
