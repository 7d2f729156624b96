import RuleWeaver.Source.Fault
import RuleWeaver.Source.Lexer

/-!
# Well-formed token streams

`tokenize` splits a source into tokens and refuses text with invalid characters, open literals or comments, and
brackets that do not match.  `closingOffset` finds a closing bracket from the offset of the opening one.
-/

namespace RuleWeaver.Source

/-- What is wrong with a token by itself. -/
def Token.fault? (t : Token) : Option Fault :=
  match t.kind, t.text with
  | .operator, s => if Text.hasPart "/*" s then some .commentNotTerminated else none
  | .stray, '\"' :: _ => some .stringNotTerminated
  | .stray, '\x27' :: _ => some .stringNotTerminated
  | .stray, '\x60' :: _ => some .rawStringNotTerminated
  | .stray, c :: _ => some (.invalidCharacter c)
  | _, _ => none

/-- The first bracket without a partner, given the brackets that are open, innermost first. -/
def unmatched? : List Token → List Token → Option (Token × Fault)
  | [], [] => none
  | t :: _, [] => some (t, .unclosedBracket t.text)
  | stack, t :: ts =>
    if t.kind.isOpen then unmatched? (t :: stack) ts
    else if t.kind.isClose then
      match stack with
      | o :: stack =>
        if o.kind.closer? = some t.kind then unmatched? stack ts else some (t, .unexpectedBracket t.text)
      | [] => some (t, .unexpectedBracket t.text)
    else unmatched? stack ts

/-- The tokens of a well-formed source, blanks left out. -/
def tokenize (source : Text) : Except SyntaxError (List Token) :=
  let all := tokens source
  match all.findSome? fun t => t.fault?.map (t.start, ·) with
  | some (offset, fault) => .error (.at source offset fault)
  | none =>
    let kept := all.filter (·.kind ≠ .blank)
    match unmatched? [] kept with
    | some (t, fault) => .error (.at source t.start fault)
    | none => .ok kept

/-- The first bracket that leaves no group open, counting from `depth` open groups. -/
def closing (source : Text) (opening : Nat) : Nat → List Token → Except SyntaxError Nat
  | _, [] => .error (.at source opening .groupNotClosed)
  | depth, t :: ts =>
    if t.kind = .stray then .error (.at source t.start .invalidInGroup)
    else if t.kind.isOpen then closing source opening (depth + 1) ts
    else if t.kind.isClose then if depth ≤ 1 then .ok t.start else closing source opening (depth - 1) ts
    else closing source opening depth ts

/-- The offset of the bracket that closes the one at offset `opening`. -/
def closingOffset (source : Text) (opening : Nat) : Except SyntaxError Nat :=
  closing source opening 0 (place opening (lex (source.dropBytes opening)))

end RuleWeaver.Source
