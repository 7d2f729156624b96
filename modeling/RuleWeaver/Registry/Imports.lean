import RuleWeaver.Document.Node
import RuleWeaver.Source.Brackets

/-!
# Imports in use

Which imports a body of code needs.  An import is dropped when its name can be told and no dot follows that name
anywhere in the body.
-/

namespace RuleWeaver

open Source (Token tokenize)

/-- The names that a dot follows. -/
def qualifiers : List Token → List Text
  | t :: d :: ts =>
    if t.kind = .ident ∧ d.kind = .dot then t.text :: qualifiers (d :: ts) else qualifiers (d :: ts)
  | _ => []

/-- Whether a path element is a major version, such as `v10`. -/
def isMajorVersion : Text → Bool
  | 'v' :: digits => !digits.isEmpty && digits.all (·.isDigit)
  | _ => false

/-- Whether a text is a name of ASCII letters, digits and underscores. -/
def isPlainName : Text → Bool
  | [] => false
  | c :: s => (c.isAlpha || c = '_') && s.all fun c => c.isAlphanum || c = '_'

/-- The name that a path suggests: its last element that is not a major version. -/
def pathName? (path : Text) : Option Text :=
  match (Text.split (· = '/') path).reverse with
  | [] => none
  | last :: rest =>
    let name? := if isMajorVersion last then rest.head? else some last
    name?.filter isPlainName

/-- The name that an import binds, where that can be told. -/
def NewImport.boundName? (l : NewImport) : Option Text :=
  match l.name with
  | some name => if name = "_".toList ∨ name = ".".toList then none else some name
  | none => pathName? l.path

/-- The imports that a body uses; all of them when it is not well formed. -/
def importsInUse (body : Text) (lines : List NewImport) : List NewImport :=
  match tokenize body with
  | .error _ => lines
  | .ok tokens => lines.filter fun l => l.boundName?.all fun name => (qualifiers tokens).contains name

end RuleWeaver
