import RuleWeaver.Glob.Filter

/-!
# Ignore files

Each line of an ignore file is a rule on paths below the folder of the file.  Of the rules that match a path the last
one decides whether it is skipped or, with a `!` in front, kept.
-/

namespace RuleWeaver.Glob

/-- What a rule says about the paths it matches. -/
inductive Verdict
  | skip
  | keep
deriving DecidableEq, Repr

structure IgnoreRule where
  /-- A path has to match one of them. -/
  patterns : List Pattern
  verdict : Verdict
  foldersOnly : Bool
deriving DecidableEq, Repr

/-! ### Alternatives -/

/-- Alternatives being read: the texts before the group, and the finished branches of the group. -/
abbrev OpenGroup := List Text × List Text

/-- Writes a pattern out without its groups `{a,b}`, once for each choice of branches; empty branches do not count.
`groups` are those open, `heads` the texts of the branch being read, last character first. -/
def expandGroups (groups : List OpenGroup) (heads : List Text) (inClass : Bool) : Text → Option (List Text)
  | [] => if groups.isEmpty then some (heads.map List.reverse) else none
  | c :: s =>
    let plain (inClass : Bool) (c : Char) := expandGroups groups (heads.map (c :: ·)) inClass s
    if inClass then plain (c ≠ ']') c
    else if c = '\\' then
      match s with
      | [] => none
      | d :: s => expandGroups groups (heads.map fun h => d :: c :: h) false s
    else if c = '[' then plain true c
    else if c = '\x7b' then expandGroups ((heads, []) :: groups) [[]] false s
    else if c = '\x7d' then
      match groups with
      | [] => none
      | (before, branches) :: groups =>
        let branches := (branches ++ heads).filter (· ≠ [])
        let branches := if branches.isEmpty then [[]] else branches
        expandGroups groups (before.flatMap fun b => branches.map (· ++ b)) false s
    else if c = ',' then
      match groups with
      | [] => plain false c
      | (before, branches) :: groups => expandGroups ((before, branches ++ heads) :: groups) [[]] false s
    else plain false c

/-! ### Patterns -/

/-- The ranges of a class that begins with the range read last; a `-` extends it to the next character. -/
def ignoreRanges (last : Char × Char) : Text → Option (List (Char × Char))
  | [] => some [last]
  | ['-'] => some [last, ('-', '-')]
  | '-' :: c :: s => if c < last.1 then none else ignoreRanges (last.1, c) s
  | c :: s => (ignoreRanges (c, c) s).map (last :: ·)

/-- The set of a class. -/
def ignoreSet? (negated : Bool) : Text → Option CharSet
  | [] => none
  | c :: s => (ignoreRanges (c, c) s).map (⟨·, negated⟩)

/-- Whether a class is that of the characters outside it, and its text. -/
def splitNegation : Text → Bool × Text
  | '!' :: s => (true, s)
  | '^' :: s => (true, s)
  | s => (false, s)

theorem splitNegation_length_le (s : Text) : (splitNegation s).2.length ≤ s.length := by
  unfold splitNegation
  split <;> simp

/-- Puts a `**` that is a whole component behind the pieces read, last piece first. -/
def pushFolders (final : Bool) : List Piece → List Piece
  | .folders :: done => .folders :: done
  | .below :: done => .below :: done
  | _ :: done => (if final then .below else .between) :: done
  | [] => [.folders]

/-- Reads a pattern; `done` are the pieces read, last piece first, and `before` is the character in front. -/
def readIgnore (done : List Piece) (before : Option Char) (s : Text) : Option Pattern :=
  match s with
  | [] => some done.reverse
  | '?' :: s => readIgnore (.one .inName :: done) (some '?') s
  | '*' :: '*' :: s =>
    if done.isEmpty ∨ before = some '/' then
      match s with
      | [] => some (pushFolders true done).reverse
      | '/' :: s => readIgnore (pushFolders false done) (some '/') s
      | s => readIgnore (.run .inName :: done) (some '*') s
    else readIgnore (.run .inName :: done) (some '*') s
  | '*' :: s => readIgnore (.run .inName :: done) (some '*') s
  | '[' :: s =>
    match h : cutClass? (splitNegation s).2 with
    | none => none
    | some (inner, rest) =>
      have := cutClass?_shorter h
      have := splitNegation_length_le s
      (ignoreSet? (splitNegation s).1 inner).bind fun set => readIgnore (.one set :: done) (some ']') rest
  | ['\\'] => none
  | '\\' :: c :: s => readIgnore (.one (.single c) :: done) (some c) s
  | c :: s => readIgnore (.one (.single c) :: done) (some c) s
termination_by s.length

/-- The patterns that a rule's text stands for. -/
def ofIgnore? (s : Text) : Option (List Pattern) := do
  let texts ← expandGroups [] [[]] false s
  let patterns ← texts.mapM (readIgnore [] none)
  return patterns.map fun p => if p = [.folders] then [.run .all] else p

/-! ### Rules -/

/-- The text to match from the text of a rule: without a separator it may begin in any folder, and behind `/**` there is
something. -/
def anchoredText (anchored : Bool) (s : Text) : Text :=
  let s : Text := if anchored || s.contains '/' || s = "**" then s else "**/" ++ s
  if (Text.stripEnd? "/**" s).isSome then s ++ "/*" else s

/-- The rule of a line, if it has one. -/
def IgnoreRule.ofLine? (line : Text) : Option IgnoreRule :=
  let line := if (Text.stripEnd? "\\ " line).isSome then line else Text.trimEnd line
  if line = [] || line.head? = some '#' then none
  else
    let (verdict, anchored, s) : Verdict × Bool × Text :=
      match line with
      | '\\' :: '!' :: s => (.skip, false, '!' :: s)
      | '\\' :: '#' :: s => (.skip, false, '#' :: s)
      | '!' :: '/' :: s => (.keep, true, s)
      | '!' :: s => (.keep, false, s)
      | '/' :: s => (.skip, true, s)
      | s => (.skip, false, s)
    let (foldersOnly, s) : Bool × Text :=
      match Text.stripEnd? ['/'] s with
      | some s => (true, (Text.stripEnd? ['\\'] s).getD s)
      | none => (false, s)
    (ofIgnore? (anchoredText anchored s)).map (⟨·, verdict, foldersOnly⟩)

def IgnoreRule.applies (r : IgnoreRule) (path : Text) (isFolder : Bool) : Bool :=
  (isFolder || !r.foldersOnly) && r.patterns.any (accepts · path)

/-- The rules of an ignore file. -/
def ignoreRules (text : Text) : List IgnoreRule :=
  let lines := (Text.split (· = '\n') (text.dropWhile (· = '\uFEFF'))).map fun line =>
    (Text.stripEnd? ['\r'] line).getD line
  lines.filterMap IgnoreRule.ofLine?

/-- What rules say about a path: the last one that applies decides. -/
def verdict? (rules : List IgnoreRule) (path : Text) (isFolder : Bool) : Option Verdict :=
  (rules.reverse.find? (·.applies path isFolder)).map (·.verdict)

end RuleWeaver.Glob
