import RuleWeaver.Proofs.Source.ImportSection
import RuleWeaver.Registry.Render

/-!
# The parts of a rebuilt registry

What a registry file is put together from when it is built anew.
-/

namespace RuleWeaver

open Source

/-- What a registry file is put together from. -/
structure RegistryParts where
  package : Text
  imports : List NewImport
  entries : List (Text × Text)
  kept : List Text
  functions : List Text

namespace RegistryParts

/-- The registry file with these parts. -/
def text (p : RegistryParts) : Text := registryText p.package p.imports p.entries p.kept p.functions

/-- The parts with an empty rule map. -/
def unmapped (p : RegistryParts) : RegistryParts := { p with entries := [] }

/-- The parts that a registry file is rebuilt from. -/
def rebuilt (existing : Text) (tree : Tree) (additions : Additions) (registry : Registry) (required : Requirements) :
    RegistryParts :=
  let start : Gathered :=
    { entries := registry.bindings.foldl (fun t (tag, function) => Table.putNew tag function t) []
      taken := additions.functions.map (·.name) ++ registry.functions
      kept := []
      made := []
      madeTags := [] }
  let g := tree.decls.foldl (Gathered.declare existing) start
  let missing := additions.functions.filter fun f => !g.madeTags.contains f.tag
  let functions := g.made ++ functionTexts missing
  let old : List NewImport := (tree.imports.flatMap (·.specs)).map fun s =>
    ⟨s.name.filter fun name => s.path ≠ Snippet.validatorPath || name ≠ "validator".toList, s.path⟩
  let imports := old ++ [⟨none, Snippet.validatorPath⟩] ++ (if needsRegexp missing then [⟨none, "regexp"⟩] else [])
  let body := Snippet.ruleMapHead ++ "\x7b\x7d\n\n" ++ Snippet.registerAll ++
    (g.kept ++ functions).flatMap fun s => '\n' :: s
  { package := tree.package.name
    imports := importsInUse body imports
    entries := required.rules.foldl (fun t r => Table.putNew r.tag (registry.boundFunction r.tag) t) g.entries
    kept := g.kept
    functions := functions }

end RegistryParts

variable {existing file rebuilt package : Text} {tree : Tree} {additions : Additions} {registry : Registry}
  {required : Requirements}

lemma rebuildRegistry_eq :
    rebuildRegistry existing tree additions registry required =
      (RegistryParts.rebuilt existing tree additions registry required).text := rfl

lemma regenerated_eq (htree : parse existing = .ok tree)
    (h : registryRendering file (some existing) package additions registry required = .ok (.regenerated rebuilt)) :
    rebuilt = (RegistryParts.rebuilt existing tree additions registry required).text := by
  simp only [registryRendering, htree] at h
  split at h
  · cases h
  · split at h
    · cases h
    · cases h
      rfl

/-! ### Its imports -/

/-- The import line that an old spec becomes: the engine's own name is left out. -/
def Source.ImportSpec.newLine (s : ImportSpec) : NewImport :=
  ⟨s.name.filter fun name => s.path ≠ Snippet.validatorPath || name ≠ "validator".toList, s.path⟩

lemma isImportLine_newLine {s : ImportSpec} (h : ∀ n ∈ s.name, IsImportName n) : IsImportLine s.newLine := by
  intro n hn
  refine h n ?_
  simp only [ImportSpec.newLine, Option.mem_def, Option.filter_eq_some_iff] at hn
  exact hn.1

lemma isImportLine_rebuilt {b : Bool} (h : ∀ s ∈ tree.imports.flatMap (·.specs), ∀ n ∈ s.name, IsImportName n) :
    ∀ l ∈ (tree.imports.flatMap (·.specs)).map ImportSpec.newLine ++ [⟨none, Snippet.validatorPath⟩] ++
      (if b then [⟨none, "regexp"⟩] else []), IsImportLine l := by
  intro l hl
  rw [List.mem_append, List.mem_append] at hl
  rcases hl with (hl | hl) | hl
  · obtain ⟨s, hs, rfl⟩ := List.mem_map.1 hl
    exact isImportLine_newLine (h s hs)
  · rw [List.mem_singleton.1 hl]
    intro n hn
    cases hn
  · cases b
    · cases hl
    · rw [List.mem_singleton.1 hl]
      intro n hn
      cases hn

lemma importsInUse_subset {body : Text} {lines : List NewImport} : importsInUse body lines ⊆ lines := by
  unfold importsInUse
  split
  · exact List.Subset.refl _
  · exact List.filter_sublist.subset

/-- The imports of a rebuilt registry are written as import lines. -/
lemma isImportLine_of_mem_rebuilt (htree : parse existing = .ok tree) :
    ∀ l ∈ (RegistryParts.rebuilt existing tree additions registry required).imports, IsImportLine l :=
  fun l hl => isImportLine_rebuilt (parse_names htree).2 l (importsInUse_subset hl)

end RuleWeaver
