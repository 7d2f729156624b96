import RuleWeaver.Source.Token

/-!
# Declaration trees

What a source file declares.  Function bodies and initialisers are not taken apart; spans into the text stand for them.
-/

namespace RuleWeaver.Source

structure PackageClause where
  name : Text
  span : Span
deriving DecidableEq, Repr

/-- One import path with the name given to it, if any. -/
structure ImportSpec where
  name : Option Text
  path : Text
  span : Span
deriving DecidableEq, Repr

/-- An import declaration. -/
structure ImportDecl where
  specs : List ImportSpec
  span : Span
  /-- Where the comment block above the declaration begins; its own start when there is none. -/
  commentStart : Nat
  /-- Whether the specs stand between parentheses. -/
  grouped : Bool
deriving DecidableEq, Repr

/-- A struct field, or several that share a type.  An embedded field is named by its type. -/
structure Field where
  names : List Text
  /-- The tag without its quotes. -/
  tag : Option Text
  embedded : Bool
deriving DecidableEq, Repr

structure TypeSpec where
  name : Text
  /-- The fields, if the type is a struct. -/
  fields : Option (List Field)
deriving DecidableEq, Repr

structure Receiver where
  type : Text
  pointer : Bool
deriving DecidableEq, Repr

structure Function where
  name : Text
  receiver : Option Receiver
  /-- The body with its braces. -/
  body : Option Span
deriving DecidableEq, Repr

inductive DeclKind
  | types (specs : List TypeSpec)
  | function (f : Function)
  | vars (names : List Text)
  | consts (names : List Text)
deriving DecidableEq, Repr

/-- A declaration other than an import. -/
structure Decl where
  kind : DeclKind
  span : Span
  /-- Where the comment block above the declaration begins; its own start when there is none. -/
  commentStart : Nat
deriving DecidableEq, Repr

/-- The declaration together with its comment block. -/
def Decl.spanWithComment (d : Decl) : Span := ⟨d.commentStart, d.span.stop⟩

/-- A source file. -/
structure Tree where
  package : PackageClause
  imports : List ImportDecl
  decls : List Decl
deriving DecidableEq, Repr

namespace Tree

/-- Whether the package-level variable is declared. -/
def hasVar (t : Tree) (name : Text) : Bool :=
  t.decls.any fun d => match d.kind with
    | .vars names => names.contains name
    | _ => false

/-- The first import of a path. -/
def importOf? (t : Tree) (path : Text) : Option ImportSpec :=
  (t.imports.flatMap (·.specs)).find? (·.path = path)

/-- The type specs in source order. -/
def types (t : Tree) : List TypeSpec :=
  t.decls.flatMap fun d => match d.kind with
    | .types specs => specs
    | _ => []

/-- The struct types with their fields, in source order. -/
def structs (t : Tree) : List (Text × List Field) :=
  t.types.filterMap fun s => s.fields.map (s.name, ·)

/-- The functions and methods in source order. -/
def functions (t : Tree) : List Function :=
  t.decls.filterMap fun d => match d.kind with
    | .function f => some f
    | _ => none

/-- The function, not a method, of a name. -/
def function? (t : Tree) (name : Text) : Option Function :=
  t.functions.find? fun f => f.receiver.isNone ∧ f.name = name

/-- The end of the last import declaration. -/
def importsEnd? (t : Tree) : Option Nat := t.imports.getLast?.map (·.span.stop)

end Tree

end RuleWeaver.Source
