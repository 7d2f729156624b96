import RuleWeaver.Candidate
import RuleWeaver.Proofs.Source.PrintedStructs

/-!
# Scanning printed types

Scanning undoes printing: of the struct types that a file is printed from, the candidates are those that are asked for, with the
names and tags of their fields (`scan_printedFile`).
-/

namespace RuleWeaver

open Source (Identifier FieldHead FieldLine StructType Tree DeclKind TypeSpec printedFile)

variable {suffix : Text} {tree : Tree}

/-- Whether a printed type gets a method: its name ends with the suffix, or a tag in it lists a rule. -/
def Source.StructType.isWanted (suffix : Text) (t : StructType) : Bool :=
  suffix.isSuffixOf t.name.text || t.fields.any fun f => f.tag.any fun tag => Rule.ofTag tag.text ≠ []

/-- The candidate for a printed type: the names in the order of the lines, each with the tag of its line. -/
def Source.StructType.candidate (t : StructType) : Candidate :=
  ⟨t.name.text, t.fields.flatMap fun f => f.head.names.map fun name => ⟨name, f.tag.elim [] (·.text)⟩⟩

/-! ### Types of a tree -/

/-- The types that a declaration declares. -/
def Source.DeclKind.typeSpecs : DeclKind → List TypeSpec
  | .types specs => specs
  | _ => []

lemma types_eq : tree.types = (tree.decls.map (·.kind.shape)).flatMap DeclKind.typeSpecs := by
  rw [Tree.types, List.flatMap_map]
  refine List.flatMap_congr fun d _ => ?_
  cases d.kind <;> rfl

/-- A tree with the declarations of printed types has their fields. -/
lemma structs_of_printed {types : List StructType} (h : tree.decls.map (·.kind.shape) = types.map fun t => .types [t.spec]) :
    tree.structs = types.map fun t => (t.name.text, t.fields.map FieldLine.field) := by
  have htypes : tree.types = types.map StructType.spec := by
    rw [types_eq, h, List.flatMap_map, List.map_eq_flatMap]
    rfl
  rw [Tree.structs, htypes, List.filterMap_map, ← List.filterMap_eq_map]
  rfl

lemma taggedNames_printed (t : StructType) : taggedNames (t.fields.map FieldLine.field) = t.candidate.fields := by
  rw [taggedNames, List.flatMap_map]
  refine List.flatMap_congr fun f _ => ?_
  rw [FieldLine.field]
  cases f.tag <;> rfl

lemma names_ne_nil (h : FieldHead) : h.names ≠ [] := by
  cases h <;> exact List.cons_ne_nil _ _

/-- A candidate has rules exactly if a tag of its type lists one. -/
lemma any_rules (t : StructType) :
    (t.candidate.fields.any fun f => f.rules ≠ []) = t.fields.any fun f => f.tag.any fun tag => Rule.ofTag tag.text ≠ [] := by
  rw [Source.StructType.candidate, List.any_flatMap]
  congr 1
  funext f
  obtain ⟨name, names, hnames⟩ := List.exists_cons_of_ne_nil (names_ne_nil f.head)
  have hsame : ∀ tag, (f.head.names.map fun name => (⟨name, tag⟩ : TaggedName)).any (fun f => f.rules ≠ []) =
      decide (Rule.ofTag tag ≠ []) := by
    intro tag
    by_cases h : Rule.ofTag tag = [] <;> simp [TaggedName.rules, hnames, h]
  cases f.tag with
  | none => exact hsame []
  | some tag => exact hsame tag.text

/-- **Scanning undoes printing.**  A printed file is scanned, and its candidates are the types whose name ends with the suffix or
that have a tag with a rule, in order, each with its names and their tags. -/
theorem scan_printedFile (hsuffix : suffix ≠ []) (package : Identifier) (types : List StructType) :
    ∃ scan, Scan.ofSource suffix (printedFile package types) = .ok scan ∧ scan.package = package.text ∧
      scan.candidates = (types.filter (StructType.isWanted suffix)).map StructType.candidate := by
  obtain ⟨tree, hparse, hpackage, hshapes⟩ := Source.exists_parse_printed package types
  refine ⟨_, by rw [Scan.ofSource, hparse]; rfl, hpackage, ?_⟩
  show candidatesOf suffix tree = _
  rw [candidatesOf, structs_of_printed hshapes, List.filterMap_map]
  conv_rhs => rw [← List.filterMap_eq_map, List.filterMap_filter]
  refine List.filterMap_congr fun t _ => ?_
  have hwanted : (suffix ≠ [] && suffix.isSuffixOf t.name.text || t.candidate.fields.any fun f => f.rules ≠ []) =
      t.isWanted suffix := by
    rw [any_rules, decide_eq_true hsuffix, Bool.true_and, Source.StructType.isWanted]
  simp only [Function.comp_apply, taggedNames_printed, hwanted]
  rfl

/-- A type with a field for each form of a line, the tag of one of which goes over two lines. -/
def pagedRequest : StructType where
  name := ⟨"PageReq", by decide⟩
  fields := [⟨.named ⟨"A", by decide⟩ [⟨"B", by decide⟩] ⟨"int", by decide⟩, some ⟨"validate:\"min=1\"\njson", by decide⟩⟩,
    ⟨.embedded true (some ⟨"base", by decide⟩) ⟨"Page", by decide⟩, none⟩]

/-- That type is asked for by its tag, not by its name. -/
theorem scan_pagedRequest : "Input".toList ≠ [] ∧
    ∃ scan, Scan.ofSource "Input" (printedFile ⟨"types", by decide⟩ [pagedRequest]) = .ok scan ∧
    scan.candidates = [⟨"PageReq", [⟨"A", "validate:\"min=1\"\njson"⟩, ⟨"B", "validate:\"min=1\"\njson"⟩, ⟨"Page", []⟩]⟩] := by
  obtain ⟨scan, hscan, -, hcandidates⟩ := @scan_printedFile "Input" (by decide) ⟨"types", by decide⟩ [pagedRequest]
  refine ⟨by decide, scan, hscan, ?_⟩
  rw [hcandidates]
  decide

end RuleWeaver
