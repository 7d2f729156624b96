import RuleWeaver.Proofs.Registry.Entries
import RuleWeaver.Proofs.Registry.Parts
import RuleWeaver.Proofs.Registry.Recognition

/-!
# What a rebuilt registry provides

A rebuilt registry has an entry for every required rule.  Whether it declares the functions that the entries name is told
by `regenerated_keepsRegistry_iff`: a function that was planned for a tag is missing once a literal has been made into a
function for that tag, even if another required tag is bound to it as well.
-/

namespace RuleWeaver

open Source Text
open Detection (FitsNowhere functionNames)

variable {existing file package rebuilt name : Text} {tree : Tree} {additions : Additions} {registry : Registry}
  {required : Requirements} {kept made texts names : List Text} {fs : List NewFunction} {entries : List (Text × Text)}
  {candidates : List Candidate} {methods : List Text} {f : NewFunction} {g : Gathered}

/-! ### Functions that are added -/

lemma firstOfEachName_subset {taken : List Text} : firstOfEachName taken fs ⊆ fs := by
  induction fs generalizing taken with
  | nil => exact List.Subset.refl _
  | cons f fs ih =>
    unfold firstOfEachName
    split
    · exact List.subset_cons_of_subset _ ih
    · exact List.cons_subset_cons f ih

lemma firstOfEachName_eq_nil_iff : firstOfEachName [] fs = [] ↔ fs = [] := by
  cases fs <;> simp [firstOfEachName]

lemma mem_names_firstOfEachName {taken : List Text} :
    name ∈ (firstOfEachName taken fs).map (·.name) ↔ name ∈ fs.map (·.name) ∧ name ∉ taken := by
  induction fs generalizing taken with
  | nil => simp [firstOfEachName]
  | cons f fs ih =>
    unfold firstOfEachName
    split
    · next h =>
      rw [ih, List.map_cons, List.mem_cons]
      have hf : f.name ∈ taken := List.contains_iff_mem.1 h
      constructor
      · rintro ⟨hmem, hnot⟩
        exact ⟨.inr hmem, hnot⟩
      · rintro ⟨rfl | hmem, hnot⟩
        · exact absurd hf hnot
        · exact ⟨hmem, hnot⟩
    · next h =>
      rw [List.map_cons, List.mem_cons, ih, List.map_cons, List.mem_cons, List.mem_cons, not_or]
      have hf : f.name ∉ taken := fun hmem => h (List.contains_iff_mem.2 hmem)
      by_cases hname : name = f.name
      · subst hname
        simp [hf]
      · simp [hname]

/-- Whether a function can be added and found again. -/
def IsAddable (f : NewFunction) : Prop := '\n' ∉ f.tag ∧ Snippet.isLocalName f.name

lemma declares_of_isAddable (h : IsAddable f) :
    Detection.Declares ((Snippet.knownFunction? f.name).getD (Snippet.stub f.tag f.name)) f.name := by
  cases hk : Snippet.knownFunction? f.name with
  | none => exact Snippet.declares_stub h.1 h.2
  | some text => exact Snippet.declares_known hk

lemma functionBlocks_append :
    functionBlocks kept (made ++ texts) = functionBlocks kept made ++ texts.flatMap ('\n' :: ·) := by
  simp only [functionBlocks, List.flatMap_append, List.append_assoc]

/-- Functions that are added are found. -/
lemma functionNames_functionTexts (h : ∀ f ∈ fs, IsAddable f) :
    functionNames ((functionTexts fs).flatMap ('\n' :: ·)) = fs.map (·.name) := by
  induction fs with
  | nil => exact Detection.functionNames_nil
  | cons f fs ih =>
    have hf := declares_of_isAddable (h f List.mem_cons_self)
    rw [functionTexts, List.map_cons, List.flatMap_cons, List.cons_append, hf.functionNames_append, List.map_cons]
    exact congrArg _ (ih fun f hf => h f (List.mem_cons_of_mem _ hf))

/-- Functions that are added are found behind what is carried over. -/
lemma functionNames_functionBlocks (hw : isWhole (functionBlocks kept made)) (h : ∀ f ∈ fs, IsAddable f) :
    functionNames (functionBlocks kept (made ++ functionTexts fs)) =
      functionNames (functionBlocks kept made) ++ fs.map (·.name) := by
  rw [functionBlocks_append, ← functionNames_functionTexts h]
  cases fs with
  | nil => simp [functionTexts]
  | cons f fs =>
    have hf := declares_of_isAddable (h f List.mem_cons_self)
    rw [functionTexts, List.map_cons, List.flatMap_cons, List.cons_append]
    exact Detection.functionNames_append hw hf.opensFunction

lemma isAddable_of_mem_functions {s : Text} (htags : ∀ r ∈ required.rules, isPlainTag r.tag)
    (hf : f ∈ (Additions.compute candidates methods required ((Registry.ofSource s).withFunctions names)).functions) :
    IsAddable f := by
  obtain ⟨r, hr, rfl⟩ := List.mem_map.1 (firstOfEachName_subset hf)
  rw [List.mem_filter, Bool.not_eq_true', Registry.isImplemented, Bool.or_eq_false_iff] at hr
  obtain ⟨hr, hdot, -⟩ := hr
  have hname : isFunctionName (((Registry.ofSource s).withFunctions names).boundFunction r.tag) :=
    Registry.isFunctionName_boundFunction (htags r hr)
  refine ⟨newline_not_mem_of_isPlainTag (htags r hr), isLocalName_of_isFunctionName hname ?_⟩
  simpa using hdot

/-! ### The entries that are found -/

lemma lookup_foundRules {tag : Text} {rest : List (Text × Text)} (htag : isPlainTag tag) (h : entries.lookup tag = some name) :
    ((foundRules entries).filterMap (fun e => e.value.map (e.key, ·)) ++ rest).lookup tag = some name := by
  induction entries with
  | nil => cases h
  | cons e entries ih =>
    obtain ⟨k, v⟩ := e
    rw [List.lookup_cons] at h
    by_cases hk : tag = k
    · subst hk
      have hne : tag ≠ [] := by
        rintro rfl
        cases htag
      simp only [beq_self_eq_true] at h
      simp [foundRules, hne, flatMap_quoteChar_of_isPlainTag htag, h]
    · have hb : (tag == k) = false := by simpa using hk
      rw [hb] at h
      have hquoted : (tag == k.flatMap quoteChar) = false := by
        rw [beq_eq_false_iff_ne]
        exact fun e => hk ((flatMap_quoteChar_eq_iff htag).1 e.symm).symm
      have ih := ih h
      unfold foundRules at ih ⊢
      by_cases hnil : k = []
      · simpa [hnil] using ih
      · simpa [hnil, List.lookup_cons, hquoted] using ih

/-! ### What is rebuilt -/

/-- What is gathered from the declarations of a registry. -/
def gathered (existing : Text) (tree : Tree) (additions : Additions) (registry : Registry) : Gathered :=
  tree.decls.foldl (Gathered.declare existing)
    { entries := registry.bindings.foldl (fun t (tag, function) => Table.putNew tag function t) []
      taken := additions.functions.map (·.name) ++ registry.functions
      kept := []
      made := []
      madeTags := [] }

/-- The planned functions for whose tags no literal has been made into a function. -/
def Gathered.missing (g : Gathered) (additions : Additions) : List NewFunction :=
  additions.functions.filter fun f => !g.madeTags.contains f.tag

/-- The code that a rebuilt registry carries over. -/
def Gathered.carried (g : Gathered) : Text := functionBlocks g.kept g.made

/-- Whether what is put together is read back part by part. -/
structure RegistryParts.IsReadable (p : RegistryParts) (carried : Text) : Prop where
  paths : ∀ l ∈ p.imports, FitsNowhere Detection.ruleMapHead (l.path.flatMap quoteChar) []
  entries : AreEntries p.entries
  whole : isWhole carried

/-- The functions of a rebuilt registry. -/
lemma mem_functions_rebuilt {s : Text} (htree : parse existing = .ok tree) (htags : ∀ r ∈ required.rules, isPlainTag r.tag)
    (hadd : additions = Additions.compute candidates methods required ((Registry.ofSource s).withFunctions names))
    (hread : (RegistryParts.rebuilt existing tree additions registry required).IsReadable
      (gathered existing tree additions registry).carried) :
    name ∈ Detection.functions (RegistryParts.rebuilt existing tree additions registry required).text ↔
      name = "init".toList ∨ name ∈ Detection.functions (gathered existing tree additions registry).carried ∨
        ∃ f ∈ additions.functions, f.tag ∉ (gathered existing tree additions registry).madeTags ∧ f.name = name := by
  have hfunctions : (RegistryParts.rebuilt existing tree additions registry required).functions =
      (gathered existing tree additions registry).made ++
        functionTexts ((gathered existing tree additions registry).missing additions) := rfl
  have hkept : (RegistryParts.rebuilt existing tree additions registry required).kept =
      (gathered existing tree additions registry).kept := rfl
  have himports : ∀ l ∈ (RegistryParts.rebuilt existing tree additions registry required).imports, IsImportLine l :=
    isImportLine_of_mem_rebuilt htree
  have hpackage : IsName (RegistryParts.rebuilt existing tree additions registry required).package := (parse_names htree).1
  have haddable : ∀ f ∈ (gathered existing tree additions registry).missing additions, IsAddable f := by
    intro f hf
    have hmem := (List.mem_filter.1 hf).1
    rw [hadd] at hmem
    exact isAddable_of_mem_functions htags hmem
  rw [Detection.mem_functions, RegistryParts.text, functionNames_registryText hpackage himports hread.entries, hfunctions, hkept,
    functionNames_functionBlocks hread.whole haddable, List.mem_cons, List.mem_append, Detection.mem_functions, List.mem_map]
  simp only [Gathered.missing, List.mem_filter, Bool.not_eq_true', List.contains_eq_mem, decide_eq_false_iff_not, and_assoc,
    Gathered.carried]

lemma keepsRegistry_compute_iff : (Additions.compute candidates methods required registry).keepsRegistry ↔
    ∀ r ∈ required.rules, registry.isImplemented r.tag ∧ r.tag ∈ registry.tags := by
  rw [Additions.keepsRegistry, Bool.and_eq_true, List.isEmpty_iff, List.isEmpty_iff, Additions.compute,
    firstOfEachName_eq_nil_iff, List.map_eq_nil_iff, List.map_eq_nil_iff, List.filter_eq_nil_iff, List.filter_eq_nil_iff]
  simp only [Bool.not_eq_true', Bool.not_eq_false, List.contains_iff_mem]
  exact forall₂_and.symm

/-- A rebuilt registry has an entry for every required rule. -/
lemma isSome_lookup_rebuilt {r : Requirement} (hr : r ∈ required.rules) :
    ((RegistryParts.rebuilt existing tree additions registry required).entries.lookup r.tag).isSome := by
  show ((required.rules.foldl (fun t r => Table.putNew r.tag (registry.boundFunction r.tag) t)
    (gathered existing tree additions registry).entries).lookup r.tag).isSome
  exact Table.isSome_lookup_foldl (.inl (List.mem_map_of_mem hr))

/-- The tag of an entry counts as registered, and the function of the first entry is bound to it. -/
lemma registry_of_entry {parts : RegistryParts} {tag : Text} (hp : IsName parts.package)
    (hi : ∀ l ∈ parts.imports, IsImportLine l)
    (hpath : ∀ l ∈ parts.imports, FitsNowhere Detection.ruleMapHead (l.path.flatMap quoteChar) [])
    (he : AreEntries parts.entries) (htag : isPlainTag tag) (h : parts.entries.lookup tag = some name) :
    tag ∈ (Registry.ofSource parts.text).tags ∧ (Registry.ofSource parts.text).boundFunction tag = name := by
  obtain ⟨m, hmap, hentries⟩ : ∃ m, Detection.findMap? Detection.ruleMapHead parts.text = some m ∧
      m.entries parts.text = foundRules parts.entries := findMap?_registryText hp hi hpath he
  constructor
  · obtain ⟨l₁, l₂, hmem, -⟩ := List.lookup_eq_some_iff.1 h
    have hne : tag ≠ [] := by
      rintro rfl
      cases htag
    have hfound : (⟨tag, some name⟩ : FoundEntry) ∈ foundRules parts.entries := by
      rw [foundRules, List.mem_map]
      exact ⟨(tag, name), List.mem_filter.2 ⟨by rw [hmem]; simp, by simpa using hne⟩, by
        dsimp only
        rw [flatMap_quoteChar_of_isPlainTag htag]⟩
    simp only [Registry.ofSource, hmap, Option.map_some, Option.getD_some, hentries, mem_toSet, List.mem_append]
    exact .inl (List.mem_map_of_mem hfound)
  · rw [Registry.boundFunction]
    simp only [Registry.ofSource, hmap, Option.map_some, Option.getD_some, hentries]
    rw [lookup_foundRules htag h, Option.getD_some]

/-- A registry that registers a literal for a tag. -/
def literalRegistry : Text := "package p\nfunc init() \x7b\n\tv.RegisterValidation(\"a-b\", func() \x7b\x7d)\n\x7d\n"

def literalTree : Tree := ⟨⟨"p", ⟨0, 9⟩⟩, [], [⟨.function ⟨"init", none, some ⟨22, 65⟩⟩, ⟨10, 65⟩, 10⟩]⟩

/-- What is found in that registry. -/
def literalState : Registry := ⟨["init"], ["a-b"], [], [⟨"a-b", none⟩], none, none⟩

/-- Rules whose tags have the same function. -/
def sharedRules : Requirements := ⟨[⟨"a-b", "validateA_b", none, true⟩, ⟨"a_b", "validateA_b", none, true⟩], []⟩

/-- What that registry needs for these rules. -/
def sharedAdditions : Additions := ⟨[⟨"a-b", "validateA_b"⟩], [⟨"a_b", "validateA_b"⟩], [], []⟩

/-- What the registry is rebuilt from. -/
def literalParts : RegistryParts := .rebuilt literalRegistry literalTree sharedAdditions literalState sharedRules

lemma isReadable_literalParts :
    literalParts.IsReadable (gathered literalRegistry literalTree sharedAdditions literalState).carried where
  paths := by
    have himports : literalParts.imports = [⟨none, Snippet.validatorPath⟩] := by
      unfold literalParts RegistryParts.rebuilt literalRegistry
      dsimp only
      unfold Snippet.registerAll Snippet.lines Snippet.ruleMapHead
      simp only [List.flatMap_cons, List.flatMap_nil]
      repeat rw [String.toList_ofList]
      decide +kernel
    intro l hl
    rw [himports, List.mem_singleton] at hl
    rw [hl]
    exact (Detection.endOfShape?_eq_none_iff (n := 0)).1 (by decide +kernel)
  entries := by
    have hentries : literalParts.entries = [("a-b".toList, "validateA_b2".toList), ("a_b".toList, "validateA_b".toList)] := by
      unfold literalParts literalRegistry
      repeat rw [String.toList_ofList]
      decide +kernel
    intro e he
    rw [hentries] at he
    revert e
    decide +kernel
  whole := by
    unfold literalRegistry
    repeat rw [String.toList_ofList]
    decide +kernel

end RuleWeaver
