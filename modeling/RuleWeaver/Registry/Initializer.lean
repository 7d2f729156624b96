import RuleWeaver.Source.Brackets
import RuleWeaver.Source.Tree
import RuleWeaver.Text.Quoted
import RuleWeaver.Text.Words

/-!
# Registrations in `init` functions

Older registries register rules by calls in an `init` function.  `extractRegistrations?` takes those statements out and
leaves every other one where it is.  It knows these forms, with any chain of names in front of `RegisterValidation`:

* `v.RegisterValidation("tag", fn)`, also as `_ = …`;
* `err := v.RegisterValidation("tag", fn)` with `if err != nil { … }` as the next statement;
* `if err := v.RegisterValidation("tag", fn); err != nil { … }` without `else`.
-/

namespace RuleWeaver

open Source (Token Kind Span Decl Function tokenize)

/-- How a function is registered. -/
inductive FunctionArgument
  /-- By its name, which may be qualified. -/
  | named (name : Text)
  /-- As a function literal, as written. -/
  | literal (text : Text)
deriving DecidableEq, Repr

/-- A registration taken out of an `init` function. -/
structure InitRegistration where
  tag : Text
  function : FunctionArgument
deriving DecidableEq, Repr

/-- What is left of an `init` function, and the registrations taken out of it. -/
structure InitRemainder where
  /-- The declaration with its comment block; nothing when no statement is left. -/
  text : Option Text
  registrations : List InitRegistration
deriving DecidableEq, Repr

/-- The significant tokens of a statement. -/
abbrev Statement := List Token

namespace Statement

/-- Whether a statement begins with a header in which semicolons do not end it. -/
def opensHeader (s : Statement) : Bool :=
  s.head?.any fun t => ["if".toList, "for".toList, "switch".toList, "select".toList].contains t.text

/-- Cuts a body into statements.  A statement ends, outside brackets, at a line break behind a token that can end one
and at a semicolon outside a header.  `current` is the begun statement and `depth` counts the open brackets. -/
def splitBody (depth : Nat) (current : Statement) : List Token → List Statement
  | [] => if current.isEmpty then [] else [current]
  | t :: ts =>
    if t.kind.isComment then splitBody depth current ts
    else if t.kind = .newline then
      if depth = 0 ∧ current.getLast?.any (·.kind.endsStatement) then current :: splitBody depth [] ts
      else splitBody depth current ts
    else if t.kind = .semi ∧ depth = 0 ∧ ¬ current.opensHeader then
      if current.isEmpty then splitBody depth [] ts else current :: splitBody depth [] ts
    else
      let depth := if t.kind.isOpen then depth + 1 else if t.kind.isClose then depth - 1 else depth
      splitBody depth (current ++ [t]) ts

/-- The range from the first token to the last. -/
def span (s : Statement) : Span := ⟨(s.head?.map (·.start)).getD 0, (s.getLast?.map (·.stop)).getD 0⟩

/-- The place of the bracket that closes the group the first token opens. -/
def closingIndex? (depth : Nat) : List Token → Option Nat
  | [] => none
  | t :: ts =>
    if t.kind.isOpen then (closingIndex? (depth + 1) ts).map (· + 1)
    else if t.kind.isClose then
      match depth with
      | 0 => none
      | 1 => some 0
      | d + 2 => (closingIndex? (d + 1) ts).map (· + 1)
    else (closingIndex? depth ts).map (· + 1)

/-- Whether the tokens are one group from the first to the last. -/
def isGroup (s : List Token) : Bool := closingIndex? 0 s = some (s.length - 1)

/-- Whether a token is the given name. -/
def isName (t : Token) (name : Text) : Bool := t.kind = .ident && t.text = name

/-- Whether the tokens are names with dots between them. -/
def isChain : List Token → Bool
  | [t] => t.kind = .ident
  | t :: d :: ts => t.kind = .ident && d.kind = .dot && isChain ts
  | [] => false

/-- Cuts arguments at the commas outside brackets; a comma at the end begins no argument. -/
def splitArguments (depth : Nat) (current : List Token) : List Token → List (List Token)
  | [] => if current.isEmpty then [] else [current]
  | t :: ts =>
    if t.kind = .comma ∧ depth = 0 then current :: splitArguments depth [] ts
    else
      let depth := if t.kind.isOpen then depth + 1 else if t.kind.isClose then depth - 1 else depth
      splitArguments depth (current ++ [t]) ts

/-- The function that an argument registers. -/
def argumentFunction? (source : Text) (argument : List Token) : Option FunctionArgument :=
  match argument.head?, argument.getLast? with
  | some first, some last =>
    let text := Text.slice source first.start last.stop
    if first.kind = .funcWord then if last.kind = .rbrace then some (.literal text) else none
    else if isChain argument then some (.named text)
    else none
  | _, _ => none

/-- The registration that a call makes, if the tokens are one call of `RegisterValidation`. -/
def registration? (source : Text) (call : List Token) : Option InitRegistration :=
  let callee := call.takeWhile (·.kind ≠ .lparen)
  let group := call.drop callee.length
  if 3 ≤ callee.length ∧ isGroup group ∧ isChain callee ∧
      callee.getLast?.any (isName · "RegisterValidation") then
    match splitArguments 0 [] (group.drop 1).dropLast with
    | [[tag], function] =>
      if tag.kind = .string then (argumentFunction? source function).map (⟨Text.unquote tag.text, ·⟩) else none
    | _ => none
  else none

/-- A call by itself or assigned to the blank name. -/
def plain? (source : Text) (s : Statement) : Option InitRegistration :=
  match s with
  | blank :: assign :: call =>
    if assign.kind = .assign ∧ blank.text = "_".toList then registration? source call else registration? source s
  | _ => registration? source s

/-- A call whose result is assigned to a variable; answers with the variable too. -/
def assigned? (source : Text) (s : Statement) : Option (Text × InitRegistration) :=
  match s with
  | name :: assign :: call =>
    let assigns := assign.kind = .assign ∨ (assign.kind = .operator ∧ assign.text = ":=".toList)
    if name.kind = .ident ∧ assigns ∧ name.text ≠ "_".toList then (registration? source call).map (name.text, ·)
    else none
  | _ => none

/-- Whether the tokens compare the variable with `nil` and are a block behind that, without `else`. -/
def isCheck (variableName : Text) : List Token → Bool
  | name :: op :: nil :: block =>
    isName name variableName && op.kind = .operator && op.text = "!=".toList && isName nil "nil" &&
      block.head?.any (·.kind = .lbrace) && isGroup block
  | _ => false

/-- Whether a statement checks the variable, without `else`. -/
def isErrorCheck (variableName : Text) : Statement → Bool
  | t :: ts => isName t "if" && isCheck variableName ts
  | [] => false

/-- The tokens before and behind the first semicolon outside brackets. -/
def splitHeader? (depth : Nat) : List Token → Option (List Token × List Token)
  | [] => none
  | t :: ts =>
    let depth := if t.kind.isOpen then depth + 1 else if t.kind.isClose then depth - 1 else depth
    if depth = 0 ∧ t.kind = .semi then some ([], ts)
    else (splitHeader? depth ts).map fun (a, b) => (t :: a, b)

/-- A call in the header of an error check. -/
def guarded? (source : Text) (s : Statement) : Option InitRegistration :=
  match s with
  | first :: rest =>
    if isName first "if" then
      match splitHeader? 0 rest with
      | some (call, check) =>
        match assigned? source call with
        | some (variableName, r) => if isCheck variableName check then some r else none
        | none => none
      | none => none
    else none
  | [] => none

end Statement

/-- A registration with the range of the statements that make it. -/
structure Removal where
  registration : InitRegistration
  span : Span
deriving DecidableEq, Repr

/-- Sorts the statements of a body: the registrations, and the statements that are left. -/
def takeOut (source : Text) : List Statement → List Removal × List Statement
  | [] => ([], [])
  | s :: ss =>
    match (s.plain? source).orElse fun _ => s.guarded? source with
    | some r =>
      let (removals, left) := takeOut source ss
      (⟨r, s.span⟩ :: removals, left)
    | none =>
      match ss with
      | [] => ([], [s])
      | check :: rest =>
        match s.assigned? source with
        | some (variableName, r) =>
          if check.isErrorCheck variableName then
            let (removals, left) := takeOut source rest
            (⟨r, s.span.start, check.span.stop⟩ :: removals, left)
          else
            let (removals, left) := takeOut source (check :: rest)
            (removals, s :: left)
        | none =>
          let (removals, left) := takeOut source (check :: rest)
          (removals, s :: left)

/-- How many bytes of blanks a text begins with. -/
def blanksWidth (s : Text) : Nat := Text.width (s.takeWhile fun c => c = ' ' || c = '\t')

/-- Widens a cut to whole lines where it stands on lines of its own.  A semicolon behind it goes too, and on lines of
its own a line comment. -/
def widenCut (source : Text) (cut : Span) : Span :=
  let lineHead := ((Text.slice source 0 cut.start).reverse.takeWhile (· ≠ '\n')).reverse
  let stop := cut.stop + blanksWidth (Text.dropBytes cut.stop source)
  let stop := if (Text.dropBytes stop source).head? = some ';' then stop + 1 else stop
  if Text.trim lineHead = [] then
    let stop := stop + blanksWidth (Text.dropBytes stop source)
    let rest := Text.dropBytes stop source
    let comment := if (Text.strip? "//" rest).isSome then rest.takeWhile (· ≠ '\n') else []
    let stop := stop + Text.width comment
    let stop := if (Text.dropBytes stop source).head? = some '\n' then stop + 1 else stop
    ⟨cut.start - Text.width lineHead, stop⟩
  else ⟨cut.start, stop⟩

/-- The text of a range without the given cuts, which are in order. -/
def withoutCuts (source : Text) (cursor stop : Nat) : List Span → Text
  | [] => Text.slice source cursor stop
  | cut :: cuts => Text.slice source cursor cut.start ++ withoutCuts source cut.stop stop cuts

/-- The tokens between two offsets. -/
def tokensBetween? (source : Text) (start stop : Nat) : Option (List Token) :=
  (tokenize (Text.slice source start stop)).toOption.map fun ts => ts.map fun t => { t with start := t.start + start }

/-- Takes the registrations out of an `init` function; nothing when it has no body. -/
def extractRegistrations? (source : Text) (d : Decl) (f : Function) : Option InitRemainder := do
  let body ← f.body
  let tokens ← tokensBetween? source (body.start + 1) (body.stop - 1)
  let (removals, left) := takeOut source (Statement.splitBody 0 [] tokens)
  let full := d.spanWithComment
  let text :=
    if removals.isEmpty then some (Text.slice source full.start full.stop)
    else if left.isEmpty then none
    else some (withoutCuts source full.start full.stop (removals.map fun r => widenCut source r.span))
  return ⟨text, removals.map (·.registration)⟩

/-- The lines of a text, each without its line break, which may be a carriage return and a line feed. -/
def textLines (s : Text) : List Text :=
  let pieces := Text.split (· = '\n') s
  let chop (line : Text) : Text := (Text.stripEnd? "\r" line).getD line
  let unfinished := pieces.getLast?.getD []
  pieces.dropLast.map chop ++ (if unfinished = [] then [] else [unfinished])

/-- A line indented one step less. -/
def outdent (line : Text) : Text := (Text.strip? "\t" line).getD line

/-- Declares a function literal as a function.  The lines of its body are indented one step less. -/
def functionOfLiteral (name literal : Text) : Text :=
  match textLines literal with
  | [] => []
  | first :: rest =>
    "func " ++ name ++ (Text.strip? "func" first).getD first ++ "\n" ++
      rest.flatMap fun line => outdent line ++ ['\n']

end RuleWeaver
