import RuleWeaver.Source.Cursor
import RuleWeaver.Source.Statements
import RuleWeaver.Source.Tree
import RuleWeaver.Text.Quoted

/-!
# Reading declarations

`parse` turns a source into its declaration tree: a package clause, imports, then other declarations.  Everything below
declarations is skipped bracket by bracket.  Comment blocks are attached to the finished tree, so what is read does not
depend on comments.
-/

namespace RuleWeaver.Source

open Text (unquote)

/-! ### Types -/

/-- Cuts the inside of a struct at the statement ends outside nested brackets. -/
def fieldSegments : Nat → List Token → List (List Token)
  | _, [] => [[]]
  | depth, t :: ts =>
    if depth = 0 ∧ t.kind = .semi then [] :: fieldSegments 0 ts
    else
      let depth := if t.kind.isOpen then depth + 1 else if t.kind.isClose then depth - 1 else depth
      match fieldSegments depth ts with
      | s :: ss => (t :: s) :: ss
      | [] => [[t]]

/-- The names at the beginning of a field, which has a type behind them. -/
def fieldNames : List Token → Except Failure (List Text)
  | [] => .ok []
  | [t] =>
    if t.kind = .ident then .error ⟨some t.stop, .fieldTypeExpected⟩ else .error ⟨some t.start, .fieldNameExpected⟩
  | t :: next :: ts =>
    if t.kind = .ident then
      if next.kind = .comma then (fieldNames ts).map (t.text :: ·) else .ok [t.text]
    else .error ⟨some t.start, .fieldNameExpected⟩

/-- Whether a field without its tag is an embedded type: a name, maybe qualified, maybe behind a star. -/
def isEmbedded (body : List Token) : Bool :=
  match body.map (·.kind) with
  | [Kind.ident] | [.star, .ident] | [.ident, .dot, .ident] | [.star, .ident, .dot, .ident] => true
  | _ => false

/-- The tag at the end of a field, and the field without it.  A literal that stands alone is no tag. -/
def splitTag (segment : List Token) : List Token × Option Text :=
  match segment.getLast? with
  | some t =>
    if (t.kind = .string ∨ t.kind = .rawString) ∧ segment.length ≠ 1 then (segment.dropLast, some (unquote t.text))
    else (segment, none)
  | none => (segment, none)

/-- The field that a segment declares; an empty one declares none. -/
def field? (segment : List Token) : Except Failure (Option Field) :=
  if segment.isEmpty then .ok none
  else
    let (body, tag) := splitTag segment
    if isEmbedded body then .ok (some ⟨[(body.getLast?.map (·.text)).getD []], tag, true⟩)
    else (fieldNames body).map fun names => some ⟨names, tag, false⟩

/-- The fields declared inside a struct. -/
def fields (inner : List Token) : Except Failure (List Field) :=
  ((fieldSegments 0 inner).mapM field?).map (·.filterMap id)

namespace Cursor

/-- Past the tokens up to the end of a statement or of the group around it. -/
def skipStatement (c : Cursor) : Except Failure Cursor :=
  match h : c.kind? with
  | none | some .semi | some .rparen => .ok c
  | some .packageWord | some .importWord | some .typeWord | some .varWord | some .constWord =>
    c.unmet .declarationEnd
  | some k =>
    if k.isOpen then
      match h' : c.group with
      | .error e => .error e
      | .ok (_, c') =>
        have := group_shorter h'
        c'.skipStatement
    else if k.isClose then c.unmet .noClosingBracket
    else
      have := advance_size_lt h
      c.advance.skipStatement
termination_by c.size

theorem skipStatement_size_le {c c' : Cursor} (h : c.skipStatement = .ok c') : c'.size ≤ c.size := by
  fun_induction skipStatement c with
  | case1 | case2 | case3 => cases h; exact Nat.le_refl _
  | case4 | case5 | case6 | case7 | case8 => exact absurd h unmet_ne_ok
  | case9 => cases h
  | case10 => rename_i ih; have := ih h; omega
  | case11 => exact absurd h unmet_ne_ok
  | case12 => rename_i ih; have := ih h; omega

/-- Whether the brackets ahead hold type parameters, as in `Name[T any]`, and not a length, as in `Name [4]int`. -/
def atTypeParameters (c : Cursor) : Bool :=
  c.kind? = some .lbracket ∧ c.kindAt? 1 = some .ident ∧
    ¬ (c.kindAt? 2 = some .rbracket ∨ c.kindAt? 2 = some .dot ∨ c.kindAt? 2 = none)

/-- Past a group if the condition holds. -/
def groupIf (condition : Bool) (c : Cursor) : Except Failure Cursor :=
  if condition then c.group.map (·.2) else .ok c

theorem groupIf_size_le {b : Bool} {c c' : Cursor} (h : c.groupIf b = .ok c') : c'.size ≤ c.size := by
  unfold groupIf at h
  split at h
  · cases e : c.group with
    | error => simp [e, Except.map] at h
    | ok p =>
      simp only [e, Except.map, Except.ok.injEq] at h
      cases h
      exact Nat.le_of_lt (group_shorter e)
  · cases h
    exact Nat.le_refl _

/-- Past a token if it is of the class. -/
def skip (kind : Kind) (c : Cursor) : Cursor := if c.kind? = some kind then c.advance else c

theorem skip_size_le (kind : Kind) (c : Cursor) : (c.skip kind).size ≤ c.size := by
  unfold skip
  split
  · exact advance_size_le c
  · exact Nat.le_refl _

/-- Reads the fields of a struct, if one is ahead. -/
def structFields? (c : Cursor) : Except Failure (Option (List Field) × Cursor) :=
  if c.kind? = some .structWord ∧ c.kindAt? 1 = some .lbrace then
    match c.advance.group with
    | .error e => .error e
    | .ok (g, c') => (fields g.inner).map fun fs => (some fs, c')
  else .ok (none, c)

theorem structFields?_size_le {c c' : Cursor} {r : Option (List Field)} (h : c.structFields? = .ok (r, c')) :
    c'.size ≤ c.size := by
  unfold structFields? at h
  split at h
  · split at h
    · cases h
    · next g c₁ e =>
      cases e' : fields g.inner with
      | error => simp [e', Except.map] at h
      | ok fs =>
        simp only [e', Except.map, Except.ok.injEq] at h
        cases h
        have := group_shorter e
        have := advance_size_le c
        omega
  · cases h
    exact Nat.le_refl _

/-- Reads a type spec up to its end. -/
def typeSpec (c : Cursor) : Except Failure (TypeSpec × Cursor) := do
  let (name, c) ← c.expect .ident .typeName
  let c ← c.groupIf c.atTypeParameters
  let (fields, c) ← (c.skip .assign).structFields?
  let c ← c.skipStatement
  return (⟨name.text, fields⟩, c)

theorem typeSpec_shorter {c c' : Cursor} {s : TypeSpec} (h : c.typeSpec = .ok (s, c')) : c'.size < c.size := by
  simp only [typeSpec, bind, Except.bind] at h
  split at h <;> try cases h
  next r₁ e₁ =>
  split at h <;> try cases h
  next c₂ e₂ =>
  split at h <;> try cases h
  next r₃ e₃ =>
  split at h <;> try cases h
  next c₄ e₄ =>
  have h₁ : r₁.2.size < c.size := expect_shorter e₁
  have h₂ := groupIf_size_le e₂
  have h₃ : r₃.2.size ≤ _ := structFields?_size_le e₃
  have h₄ := skipStatement_size_le e₄
  have h₅ := skip_size_le .assign c₂
  omega

/-! ### Imports, values and functions -/

/-- Reads an import path with the name in front of it. -/
def importSpec (c : Cursor) : Except Failure (ImportSpec × Cursor) :=
  let start := (c.ahead.head?.map (·.start)).getD c.behind
  let named := c.kind? = some .ident ∨ c.kind? = some .dot
  let name := if named then c.ahead.head?.map (·.text) else none
  let c := if named then c.advance else c
  match c.ahead with
  | t :: ts =>
    if t.kind = .string ∨ t.kind = .rawString then .ok (⟨name, unquote t.text, start, t.stop⟩, ⟨t.stop, ts⟩)
    else c.unmet .importPath
  | [] => c.unmet .importPath

theorem importSpec_shorter {c c' : Cursor} {s : ImportSpec} (h : c.importSpec = .ok (s, c')) :
    c'.size < c.size := by
  simp only [importSpec] at h
  generalize hd : (if c.kind? = some .ident ∨ c.kind? = some .dot then c.advance else c) = d at h
  have hle : d.size ≤ c.size := by
    subst hd
    split
    · exact advance_size_le c
    · exact Nat.le_refl _
  split at h
  · next t ts e =>
    split at h
    · cases h
      simp only [size, e, List.length_cons] at hle ⊢
      omega
    · exact absurd h unmet_ne_ok
  · exact absurd h unmet_ne_ok

/-- Reads an import spec of a group, with the statement end behind it. -/
def groupedImportSpec (c : Cursor) : Except Failure (ImportSpec × Cursor) := do
  let (spec, c) ← c.importSpec
  if c.kind? = some .rparen then return (spec, c)
  let (_, c) ← c.expect .semi .importSeparator
  return (spec, c)

theorem groupedImportSpec_shorter {c c' : Cursor} {s : ImportSpec} (h : c.groupedImportSpec = .ok (s, c')) :
    c'.size < c.size := by
  simp only [groupedImportSpec, bind, Except.bind] at h
  split at h <;> try cases h
  next r₁ e₁ =>
  have h₁ : r₁.2.size < c.size := importSpec_shorter e₁
  split at h
  · cases h
    exact h₁
  · split at h <;> try cases h
    next r₂ e₂ =>
    have h₂ : r₂.2.size < r₁.2.size := expect_shorter e₂
    omega

/-- Reads names with commas between them. -/
def declaredNames (c : Cursor) : Except Failure (List Text × Cursor) :=
  match h : c.expect .ident .valueName with
  | .error e => .error e
  | .ok (t, c') =>
    if c'.kind? = some .comma then
      have : c'.advance.size < c.size := Nat.lt_of_le_of_lt (advance_size_le c') (expect_shorter h)
      c'.advance.declaredNames.map fun (names, c'') => (t.text :: names, c'')
    else .ok ([t.text], c')
termination_by c.size

theorem declaredNames_shorter {c c' : Cursor} {names : List Text} (h : c.declaredNames = .ok (names, c')) :
    c'.size < c.size := by
  fun_induction declaredNames c generalizing names with
  | case1 => cases h
  | case2 c t c₁ e _ hlt ih =>
    cases e' : c₁.advance.declaredNames with
    | error => simp [e', Except.map] at h
    | ok p =>
      simp only [e', Except.map, Except.ok.injEq] at h
      cases h
      have := ih e'
      omega
  | case3 c t c₁ e =>
    cases h
    exact expect_shorter e

/-- Reads the names that a statement declares, up to its end. -/
def valueSpec (c : Cursor) : Except Failure (List Text × Cursor) := do
  let (names, c) ← c.declaredNames
  let c ← c.skipStatement
  return (names, c)

theorem valueSpec_shorter {c c' : Cursor} {names : List Text} (h : c.valueSpec = .ok (names, c')) :
    c'.size < c.size := by
  simp only [valueSpec, bind, Except.bind] at h
  split at h <;> try cases h
  next r₁ e₁ =>
  split at h <;> try cases h
  next c₂ e₂ =>
  have h₁ : r₁.2.size < c.size := declaredNames_shorter e₁
  have h₂ := skipStatement_size_le e₂
  omega

/-- Past the results of a function; answers with its body, if it has one. -/
def functionBody (c : Cursor) : Except Failure (Option Span × Cursor) :=
  match h : c.kind? with
  | none | some .semi => .ok (none, c)
  | some k =>
    if (k = .structWord ∨ k = .interfaceWord) ∧ c.kindAt? 1 = some .lbrace then
      match h' : c.advance.group with
      | .error e => .error e
      | .ok (_, c') =>
        have : c'.size < c.size := Nat.lt_of_lt_of_le (group_shorter h') (advance_size_le c)
        c'.functionBody
    else if k = .lbrace then c.group.map fun (g, c') => (some g.span, c')
    else if k.isOpen then
      match h' : c.group with
      | .error e => .error e
      | .ok (_, c') =>
        have := group_shorter h'
        c'.functionBody
    else if k.isClose then c.unmet .noClosingBracket
    else
      have := advance_size_lt h
      c.advance.functionBody
termination_by c.size

theorem functionBody_size_le {c c' : Cursor} {b : Option Span} (h : c.functionBody = .ok (b, c')) :
    c'.size ≤ c.size := by
  fun_induction functionBody c with
  | case1 | case2 => cases h; exact Nat.le_refl _
  | case3 => cases h
  | case4 => rename_i ih; have := ih h; omega
  | case5 c =>
    cases e : c.group with
    | error => simp [e, Except.map] at h
    | ok p =>
      simp only [e, Except.map, Except.ok.injEq] at h
      cases h
      exact Nat.le_of_lt (group_shorter e)
  | case6 => cases h
  | case7 => rename_i ih; have := ih h; omega
  | case8 => exact absurd h unmet_ne_ok
  | case9 => rename_i ih; have := ih h; omega

/-- The receiver that a group declares: its type is the last name outside brackets. -/
def receiver (g : Group) : Except Failure Receiver :=
  let names := (g.inner.takeWhile (·.kind ≠ .lbracket)).filter (·.kind = .ident)
  match names.getLast? with
  | some t => .ok ⟨t.text, g.inner.any (·.kind = .star)⟩
  | none => .error ⟨some g.span.start, .receiverTypeExpected⟩

/-- Reads a receiver, if one is ahead. -/
def receiver? (c : Cursor) : Except Failure (Option Receiver × Cursor) :=
  if c.kind? = some .lparen then
    match c.group with
    | .error e => .error e
    | .ok (g, c') => (receiver g).map fun r => (some r, c')
  else .ok (none, c)

/-- Reads the parameters of a function. -/
def parameters (c : Cursor) : Except Failure (Group × Cursor) :=
  if c.kind? = some .lparen then c.group else c.unmet .parameterList

theorem parameters_shorter {c c' : Cursor} {g : Group} (h : c.parameters = .ok (g, c')) : c'.size < c.size := by
  unfold parameters at h
  split at h
  · exact group_shorter h
  · exact absurd h unmet_ne_ok

/-- Reads a function behind its keyword. -/
def function (c : Cursor) : Except Failure (Function × Cursor) := do
  let (receiver, c) ← c.receiver?
  let (name, c) ← c.expect .ident .functionName
  let c ← c.groupIf (c.kind? = some .lbracket)
  let (_, c) ← c.parameters
  let (body, c) ← c.functionBody
  return (⟨name.text, receiver, body⟩, c)

theorem receiver?_size_le {c c' : Cursor} {r : Option Receiver} (h : c.receiver? = .ok (r, c')) :
    c'.size ≤ c.size := by
  unfold receiver? at h
  split at h
  · split at h
    · cases h
    · next g c₁ e =>
      cases e' : receiver g with
      | error => simp [e', Except.map] at h
      | ok r =>
        simp only [e', Except.map, Except.ok.injEq] at h
        cases h
        exact Nat.le_of_lt (group_shorter e)
  · cases h
    exact Nat.le_refl _

theorem function_shorter {c c' : Cursor} {f : Function} (h : c.function = .ok (f, c')) : c'.size < c.size := by
  simp only [function, bind, Except.bind] at h
  split at h <;> try cases h
  next r₁ e₁ =>
  split at h <;> try cases h
  next r₂ e₂ =>
  split at h <;> try cases h
  next c₃ e₃ =>
  split at h <;> try cases h
  next r₄ e₄ =>
  split at h <;> try cases h
  next r₅ e₅ =>
  have h₁ : r₁.2.size ≤ c.size := receiver?_size_le e₁
  have h₂ : r₂.2.size < r₁.2.size := expect_shorter e₂
  have h₃ := groupIf_size_le e₃
  have h₄ : r₄.2.size < c₃.size := parameters_shorter e₄
  have h₅ : r₅.2.size ≤ r₄.2.size := functionBody_size_le e₅
  omega

end Cursor

/-! ### The file -/

def typeItem : ItemReader TypeSpec := ⟨Cursor.typeSpec, Cursor.typeSpec_shorter⟩
def valueItem : ItemReader (List Text) := ⟨Cursor.valueSpec, Cursor.valueSpec_shorter⟩
def importItem : ItemReader ImportSpec := ⟨Cursor.importSpec, Cursor.importSpec_shorter⟩
def groupedImportItem : ItemReader ImportSpec := ⟨Cursor.groupedImportSpec, Cursor.groupedImportSpec_shorter⟩

namespace Cursor

/-- The offset of the next token. -/
def start (c : Cursor) : Nat := (c.ahead.head?.map (·.start)).getD c.behind

/-- Reads the clause that opens a file. -/
def packageClause (c : Cursor) : Except Failure (PackageClause × Cursor) := do
  let (keyword, c) ← c.expect .packageWord .packageClause
  let (name, c) ← c.expect .ident .packageName
  let c ← c.endDeclaration
  return (⟨name.text, ⟨keyword.start, name.stop⟩⟩, c)

/-- Reads an import declaration at its keyword. -/
def importDecl (c : Cursor) : Except Failure (ImportDecl × Cursor) := do
  let ((specs, grouped), d) ← oneOrGroup importItem groupedImportItem .importGroupEnd c.advance
  let d' ← d.endDeclaration
  return (⟨specs, ⟨c.start, d.behind⟩, c.start, grouped⟩, d')

/-- Reads a declaration at its keyword, up to where it ends. -/
def declKind (c : Cursor) : Except Failure (DeclKind × Cursor) :=
  match c.kind? with
  | some .typeWord =>
    (oneOrGroup typeItem typeItem .typeGroupEnd c.advance).map fun (r, d) => (.types r.1, d)
  | some .funcWord => c.advance.function.map fun (f, d) => (.function f, d)
  | some .varWord =>
    (oneOrGroup valueItem valueItem .valueGroupEnd c.advance).map fun (r, d) => (.vars r.1.flatten, d)
  | some .constWord =>
    (oneOrGroup valueItem valueItem .valueGroupEnd c.advance).map fun (r, d) => (.consts r.1.flatten, d)
  | some .importWord => c.unmet .importsFirst
  | _ => c.unmet .declaration

/-- Reads a declaration with its end. -/
def decl (c : Cursor) : Except Failure (Decl × Cursor) := do
  let (kind, d) ← c.declKind
  let d' ← d.endDeclaration
  return (⟨kind, ⟨c.start, d.behind⟩, c.start⟩, d')

theorem importDecl_shorter {c c' : Cursor} {i : ImportDecl} {k : Kind} (hk : c.kind? = some k)
    (h : c.importDecl = .ok (i, c')) : c'.size < c.size := by
  simp only [importDecl, bind, Except.bind] at h
  split at h <;> try cases h
  next r₁ e₁ =>
  split at h <;> try cases h
  next d e₂ =>
  have h₁ : r₁.2.size ≤ _ := oneOrGroup_size_le e₁
  have h₂ := endDeclaration_size_le e₂
  have h₃ := advance_size_lt hk
  omega

theorem declKind_shorter {c d : Cursor} {kind : DeclKind} (h : c.declKind = .ok (kind, d)) : d.size < c.size := by
  have group : ∀ {α : Type} {item : ItemReader α} {goal : Goal} {k : Kind} (f : List α × Bool → DeclKind),
      c.kind? = some k →
      (oneOrGroup item item goal c.advance).map (fun (r, d) => (f r, d)) = .ok (kind, d) → d.size < c.size := by
    intro α item goal k f hk h
    cases e : oneOrGroup item item goal c.advance with
    | error => simp [e, Except.map] at h
    | ok p =>
      simp only [e, Except.map, Except.ok.injEq] at h
      cases h
      exact Nat.lt_of_le_of_lt (oneOrGroup_size_le e) (advance_size_lt hk)
  unfold declKind at h
  split at h
  · next hk => exact group (fun r => .types r.1) hk h
  · next hk =>
    cases e : c.advance.function with
    | error => simp [e, Except.map] at h
    | ok p =>
      simp only [e, Except.map, Except.ok.injEq] at h
      cases h
      exact Nat.lt_trans (function_shorter e) (advance_size_lt hk)
  · next hk => exact group (fun r => .vars r.1.flatten) hk h
  · next hk => exact group (fun r => .consts r.1.flatten) hk h
  · exact absurd h unmet_ne_ok
  · exact absurd h unmet_ne_ok

theorem decl_shorter {c c' : Cursor} {d : Decl} (h : c.decl = .ok (d, c')) : c'.size < c.size := by
  simp only [decl, bind, Except.bind] at h
  split at h <;> try cases h
  next r₁ e₁ =>
  split at h <;> try cases h
  next d e₂ =>
  have h₁ : r₁.2.size < c.size := declKind_shorter e₁
  have h₂ := endDeclaration_size_le e₂
  omega

/-- Reads the imports at the beginning of a file. -/
def imports (c : Cursor) : Except Failure (List ImportDecl × Cursor) :=
  if h : c.pastSemis.kind? = some .importWord then
    match h' : c.pastSemis.importDecl with
    | .error e => .error e
    | .ok (i, c') =>
      have : c'.size < c.size := Nat.lt_of_lt_of_le (importDecl_shorter h h') c.pastSemis_size_le
      c'.imports.map fun (is, c'') => (i :: is, c'')
  else .ok ([], c)
termination_by c.size

/-- Reads declarations to the end of the file. -/
def decls (c : Cursor) : Except Failure (List Decl) :=
  if c.pastSemis.kind? = none then .ok []
  else
    match h : c.pastSemis.decl with
    | .error e => .error e
    | .ok (d, c') =>
      have : c'.size < c.size := Nat.lt_of_lt_of_le (decl_shorter h) c.pastSemis_size_le
      c'.decls.map (d :: ·)
termination_by c.size

/-- Reads a file. -/
def file (c : Cursor) : Except Failure Tree := do
  let (package, c) ← c.pastSemis.packageClause
  let (imports, c) ← c.imports
  let decls ← c.decls
  return ⟨package, imports, decls⟩

end Cursor

/-- Where the comment block begins that ends right above `start`.  `before` are the tokens in front, nearest first, and
`breaks` counts the line breaks passed since the last comment; an empty line or code ends the block, and a comment
behind code on its line belongs to that code. -/
def commentStart (start breaks : Nat) : List Token → Nat
  | [] => start
  | t :: before =>
    if t.kind = .newline then if 1 ≤ breaks then start else commentStart start (breaks + 1) before
    else if t.kind.isComment then
      if before.head?.all (·.kind = .newline) then commentStart t.start 0 before else start
    else start

/-- The begin of the comment block above the token at an offset. -/
def commentStartAt (all : List Token) (offset : Nat) : Nat :=
  commentStart offset 0 (all.takeWhile (·.start ≠ offset)).reverse

/-- Attaches the comment blocks above imports and declarations. -/
def Tree.withComments (all : List Token) (t : Tree) : Tree where
  package := t.package
  imports := t.imports.map fun i => { i with commentStart := commentStartAt all i.span.start }
  decls := t.decls.map fun d => { d with commentStart := commentStartAt all d.span.start }

/-- The declaration tree of a source. -/
def parse (source : Text) : Except SyntaxError Tree :=
  match tokenize source with
  | .error e => .error e
  | .ok all =>
    match Cursor.file ⟨0, endStatements source.width false all⟩ with
    | .error e => .error (.at source (e.offset.getD source.width) e.fault)
    | .ok tree => .ok (tree.withComments all)

end RuleWeaver.Source
