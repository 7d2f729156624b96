import Mathlib.Data.List.Perm.Basic
import RuleWeaver.Proofs.Registry.Requirements
import RuleWeaver.Registry.Render
import RuleWeaver.Translation.Render

/-!
# Declaration order

The registry file and the translation file do not depend on the order of types and fields (`renderings_of_reordered`): of what
is gathered from candidates only sets of tags and names get there.  The parameters that are kept for a tag and the conflicts do
depend on it.
-/

namespace RuleWeaver

open Requirements (collect)

variable {candidates reordered : List Candidate} {required required' : Requirements} {a b : Additions} {registry : Registry}
  {existing : Option Text} {types : List Text} {custom : Bool}

/-- Whether candidates stand in another order, the fields of each perhaps too. -/
def Reordered (candidates reordered : List Candidate) : Prop :=
  ∃ middle, candidates.Perm middle ∧ middle.Forall₂ (fun c d => c.name = d.name ∧ c.fields.Perm d.fields) reordered

namespace Reordered

/-- Each candidate has its counterpart. -/
lemma exists_counterpart (h : Reordered candidates reordered) {c : Candidate} (hc : c ∈ candidates) :
    ∃ d ∈ reordered, c.name = d.name ∧ c.fields.Perm d.fields := by
  obtain ⟨middle, hperm, hall⟩ := h
  have hc := hperm.mem_iff.1 hc
  clear hperm
  induction hall with
  | nil => cases hc
  | @cons e d es ds hed _ ih =>
    rcases List.mem_cons.1 hc with rfl | hc
    · exact ⟨d, List.mem_cons_self, hed⟩
    · obtain ⟨d', hd', heq⟩ := ih hc
      exact ⟨d', List.mem_cons_of_mem d hd', heq⟩

lemma symm (h : Reordered candidates reordered) : Reordered reordered candidates := by
  obtain ⟨middle, hperm, hall⟩ := h
  have hflip : reordered.Forall₂ (fun c d => c.name = d.name ∧ c.fields.Perm d.fields) middle :=
    (hall.imp fun c d h => ⟨h.1.symm, h.2.symm⟩).flip
  have hcomp : Relation.Comp (List.Forall₂ fun c d : Candidate => c.name = d.name ∧ c.fields.Perm d.fields) List.Perm
      reordered candidates := ⟨middle, hflip, hperm.symm⟩
  rw [List.forall₂_comp_perm_eq_perm_comp_forall₂] at hcomp
  exact hcomp

lemma exists_field_iff (h : Reordered candidates reordered) {p : TaggedName → Prop} :
    (∃ c ∈ candidates, ∃ f ∈ c.fields, p f) ↔ ∃ c ∈ reordered, ∃ f ∈ c.fields, p f := by
  have key : ∀ {cs ds : List Candidate}, Reordered cs ds → (∃ c ∈ cs, ∃ f ∈ c.fields, p f) → ∃ d ∈ ds, ∃ f ∈ d.fields, p f := by
    rintro cs ds h ⟨c, hc, f, hf, hp⟩
    obtain ⟨d, hd, -, hfields⟩ := h.exists_counterpart hc
    exact ⟨d, hd, f, hfields.mem_iff.1 hf, hp⟩
  exact ⟨key h, key h.symm⟩

lemma mem_names_iff (h : Reordered candidates reordered) {name : Text} :
    name ∈ candidates.map (·.name) ↔ name ∈ reordered.map (·.name) := by
  have key : ∀ {cs ds : List Candidate}, Reordered cs ds → name ∈ cs.map (·.name) → name ∈ ds.map (·.name) := by
    intro cs ds h hname
    obtain ⟨c, hc, rfl⟩ := List.mem_map.1 hname
    obtain ⟨d, hd, hname, -⟩ := h.exists_counterpart hc
    exact List.mem_map.2 ⟨d, hd, hname.symm⟩
  exact ⟨key h, key h.symm⟩

/-- **The same tags are required.** -/
theorem tags_collect (h : Reordered candidates reordered) : (collect candidates custom).tags = (collect reordered custom).tags := by
  refine Requirements.isAscending_collect.ext Requirements.isAscending_collect fun tag => ?_
  rw [Requirements.mem_tags_collect, Requirements.mem_tags_collect]
  exact or_congr_right (and_congr_right fun _ => h.exists_field_iff)

/-- **The same types need a method.** -/
theorem methods_compute (h : Reordered candidates reordered) : (Additions.compute candidates types required registry).methods =
    (Additions.compute reordered types required' registry).methods := by
  unfold Additions.compute
  refine Text.isAscending_toSet.ext Text.isAscending_toSet fun name => ?_
  rw [Text.mem_toSet, Text.mem_toSet, List.mem_filter, List.mem_filter, h.mem_names_iff]

end Reordered

/-! ### What the required tags determine -/

lemma foldl_rules {table : Table} :
    required.rules.foldl (fun t r => Table.putNew r.tag (registry.boundFunction r.tag) t) table =
      required.tags.foldl (fun t tag => Table.putNew tag (registry.boundFunction tag) t) table := by
  rw [Requirements.tags, List.foldl_map]

/-- A rebuilt registry depends on the functions that are added and the tags that are required. -/
lemma rebuildRegistry_congr {existing : Text} {tree : Source.Tree} (hfunctions : a.functions = b.functions)
    (htags : required.tags = required'.tags) :
    rebuildRegistry existing tree a registry required = rebuildRegistry existing tree b registry required' := by
  simp only [rebuildRegistry, hfunctions, foldl_rules, htags]

/-- What becomes of a registry file depends on the functions and entries that are added and the tags that are required. -/
lemma registryRendering_congr {file package : Text} (hfunctions : a.functions = b.functions) (hbindings : a.bindings = b.bindings)
    (htags : required.tags = required'.tags) : registryRendering file existing package a registry required =
      registryRendering file existing package b registry required' := by
  have hkeeps : a.keepsRegistry = b.keepsRegistry := by rw [Additions.keepsRegistry, Additions.keepsRegistry, hfunctions, hbindings]
  have hnew : newRegistry package a = newRegistry package b := by rw [newRegistry, newRegistry, hfunctions, hbindings]
  have hmerge : ∀ existing tree m, mergeRegistry existing tree m a = mergeRegistry existing tree m b := by
    intro existing tree m
    simp only [mergeRegistry, hfunctions, hbindings]
  simp only [registryRendering, hkeeps, hnew, hmerge, rebuildRegistry_congr hfunctions htags]

/-- **Declaration order is immaterial.**  Whatever is there already, reordered types and fields make for the same functions and
entries to add, the same types that need a method and the same missing messages, and the registry file and the translation
file come out the same or fail in the same way. -/
theorem renderings_of_reordered (h : Reordered candidates reordered) (custom : Bool) (methodTypes : List Text) (registry : Registry)
    (translations : Translations) (l : Language) (registryFile translationFile package : Text)
    (existing translated : Option Text) :
    let required := collect candidates custom
    let required' := collect reordered custom
    let additions := Additions.compute candidates methodTypes required registry
    let additions' := Additions.compute reordered methodTypes required' registry
    additions.functions = additions'.functions ∧ additions.bindings = additions'.bindings ∧
      additions.methods = additions'.methods ∧ translations.missing required = translations.missing required' ∧
      registryRendering registryFile existing package additions registry required =
        registryRendering registryFile existing package additions' registry required' ∧
      translationRendering translationFile translated package l (translations.missing required) translations =
        translationRendering translationFile translated package l (translations.missing required') translations := by
  intro required required' additions additions'
  have htags : required.tags = required'.tags := h.tags_collect
  have hfunctions : additions.functions = additions'.functions := by rw [Additions.functions_compute, Additions.functions_compute, htags]
  have hbindings : additions.bindings = additions'.bindings := by rw [Additions.bindings_compute, Additions.bindings_compute, htags]
  have hmissing : translations.missing required = translations.missing required' := by
    rw [Translations.missing, Translations.missing]
    exact congrArg (List.filter _) htags
  exact ⟨hfunctions, hbindings, h.methods_compute, hmissing, registryRendering_congr hfunctions hbindings htags, by rw [hmissing]⟩

/-! ### Two types that disagree -/

def zipTypes : List Candidate :=
  [⟨"AReq", [⟨"Zip", "validate:\"zip=5\""⟩, ⟨"Phone", "validate:\"mobile\""⟩]⟩, ⟨"BReq", [⟨"Zip", "validate:\"zip=6\""⟩]⟩]

def zipTypesBackwards : List Candidate :=
  [⟨"BReq", [⟨"Zip", "validate:\"zip=6\""⟩]⟩, ⟨"AReq", [⟨"Phone", "validate:\"mobile\""⟩, ⟨"Zip", "validate:\"zip=5\""⟩]⟩]

lemma reordered_zipTypes : Reordered zipTypes zipTypesBackwards := by
  refine ⟨zipTypes.reverse, (List.reverse_perm zipTypes).symm, ?_⟩
  refine .cons ⟨rfl, List.Perm.refl _⟩ (.cons ⟨rfl, List.Perm.swap _ _ []⟩ .nil)

/-- The parameters that are kept come from the type that stands first, and they do not get into the registry. -/
theorem renderings_of_zipTypes :
    (collect zipTypes true).rules ≠ (collect zipTypesBackwards true).rules ∧
    registryRendering "r.go" none "types" (Additions.compute zipTypes [] (collect zipTypes true) .empty) .empty (collect zipTypes true) =
      registryRendering "r.go" none "types" (Additions.compute zipTypesBackwards [] (collect zipTypesBackwards true) .empty) .empty
        (collect zipTypesBackwards true) := by
  refine ⟨by decide +kernel, ?_⟩
  obtain ⟨-, -, -, -, hregistry, -⟩ := renderings_of_reordered reordered_zipTypes true [] .empty .empty .en "r.go" "t.go" "types" none none
  exact hregistry

end RuleWeaver
