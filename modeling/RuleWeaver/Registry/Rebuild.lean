import RuleWeaver.Registry.Additions
import RuleWeaver.Registry.Imports
import RuleWeaver.Registry.Initializer
import RuleWeaver.Snippet

/-!
# Building a registry file

`registryText` puts a registry file together.  `rebuildRegistry` builds one around the declarations of a file that has
no rule map: registrations move from `init` functions into the map, function literals become functions, and imports that
nothing uses go.
-/

namespace RuleWeaver

open Source (Tree Decl)

/-- A table of texts in ascending order of its keys, each once. -/
abbrev Table := List (Text × Text)

namespace Table

/-- Adds a key with its value unless the key is there. -/
def putNew (key value : Text) : Table → Table
  | [] => [(key, value)]
  | (k, v) :: rest =>
    if key = k then (k, v) :: rest
    else if Text.le key k then (key, value) :: (k, v) :: rest
    else (k, v) :: putNew key value rest

end Table

/-- The functions to add, as text. -/
def functionTexts (fs : List NewFunction) : List Text :=
  fs.map fun f => (Snippet.knownFunction? f.name).getD (Snippet.stub f.tag f.name)

/-- Whether one of the functions to add is a seeded one, whose text needs regular expressions. -/
def needsRegexp (fs : List NewFunction) : Bool := fs.any fun f => (Snippet.knownFunction? f.name).isSome

/-- A registry file. -/
def registryText (package : Text) (imports : List NewImport) (entries : List (Text × Text))
    (kept functions : List Text) : Text :=
  renderNodes <|
    [.text ("package " ++ package ++ "\n\n"), .imports imports,
      .text ("\n" ++ Snippet.ruleMapComment ++ "\n" ++ Snippet.ruleMapHead),
      .map ⟨[], entries.map fun (tag, function) => (tag, .name function)⟩,
      .text ("\n\n" ++ Snippet.registerAll)] ++
    kept.map (fun s => .function (s ++ "\n")) ++ functions.map .function

/-- The base name, or else the base name with the smallest number from `n` on, that is not taken.  Among `fuel` + 1
candidates one is free when fewer names are taken. -/
def freeNumbered (base : Text) (taken : List Text) : Nat → Nat → Text
  | 0, n => base ++ (toString n).toList
  | fuel + 1, n =>
    let name := base ++ (toString n).toList
    if taken.contains name then freeNumbered base taken fuel (n + 1) else name

/-- A name that is not taken. -/
def freshName (base : Text) (taken : List Text) : Text :=
  if taken.contains base then freeNumbered base taken taken.length 2 else base

/-- What has been gathered from the declarations of a file. -/
structure Gathered where
  entries : Table
  /-- The names that functions have. -/
  taken : List Text
  /-- The declarations that stay, in order. -/
  kept : List Text
  /-- The functions made of literals, in order. -/
  made : List Text
  /-- The tags of those functions. -/
  madeTags : List Text

namespace Gathered

/-- Takes in a registration.  The function that a tag has already stays. -/
def register (g : Gathered) (r : InitRegistration) : Gathered :=
  match r.function with
  | .named name => { g with entries := Table.putNew r.tag name g.entries }
  | .literal text =>
    if (g.entries.lookup r.tag).isSome then g
    else
      let name := freshName (Rule.defaultFunction r.tag) g.taken
      { g with
        entries := Table.putNew r.tag name g.entries
        taken := name :: g.taken
        made := g.made ++ [functionOfLiteral name text]
        madeTags := r.tag :: g.madeTags }

/-- Takes in a declaration. -/
def declare (source : Text) (g : Gathered) (d : Decl) : Gathered :=
  let span := d.spanWithComment
  let whole : Gathered := { g with kept := g.kept ++ [Text.slice source span.start span.stop] }
  match d.kind with
  | .vars names => if names.contains "registerValidation" then g else whole
  | .function f =>
    if f.receiver.isNone ∧ f.name = "init".toList then
      match extractRegistrations? source d f with
      | some remainder =>
        let g := remainder.registrations.foldl register g
        { g with kept := g.kept ++ remainder.text.toList }
      | none => whole
    else whole
  | _ => whole

end Gathered

/-- A registry file around the declarations of an existing one. -/
def rebuildRegistry (existing : Text) (tree : Tree) (additions : Additions) (registry : Registry)
    (required : Requirements) : Text :=
  let start : Gathered :=
    { entries := registry.bindings.foldl (fun t (tag, function) => Table.putNew tag function t) []
      taken := additions.functions.map (·.name) ++ registry.functions
      kept := []
      made := []
      madeTags := [] }
  let g := tree.decls.foldl (Gathered.declare existing) start
  let entries := required.rules.foldl (fun t r => Table.putNew r.tag (registry.boundFunction r.tag) t) g.entries
  let missing := additions.functions.filter fun f => !g.madeTags.contains f.tag
  let functions := g.made ++ functionTexts missing
  let old : List NewImport := (tree.imports.flatMap (·.specs)).map fun s =>
    ⟨s.name.filter fun name => s.path ≠ Snippet.validatorPath || name ≠ "validator".toList, s.path⟩
  let imports := old ++ [⟨none, Snippet.validatorPath⟩] ++ (if needsRegexp missing then [⟨none, "regexp"⟩] else [])
  let body := Snippet.ruleMapHead ++ "\x7b\x7d\n\n" ++ Snippet.registerAll ++
    (g.kept ++ functions).flatMap fun s => '\n' :: s
  registryText tree.package.name (importsInUse body imports) entries g.kept functions

end RuleWeaver
