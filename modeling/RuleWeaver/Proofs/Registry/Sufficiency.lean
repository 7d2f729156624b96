import Mathlib.Data.List.Nodup
import RuleWeaver.Proofs.Registry.Creation

/-!
# Additions that suffice

What is to be added to a registry is enough, and none of it can be left out (`additions_suffice`).  An entry that is added
tells of a tag no other function than the one that was bound to it before (`boundFunction_adding`), so a function that several
tags are bound to is declared for all of them once it is added for one.
-/

namespace RuleWeaver

open Text (IsAscending)
open Requirements (collect)

variable {candidates : List Candidate} {types : List Text} {required : Requirements} {registry : Registry} {tag : Text}
  {fs gs : List NewFunction} {f : NewFunction} {bs cs : List Binding} {b : Binding}

namespace Registry

/-- The registry with functions and entries in addition.  An entry also tells which function its tag is bound to. -/
def adding (s : Registry) (functions : List NewFunction) (bindings : List Binding) : Registry :=
  { s.withFunctions (functions.map (·.name)) with
    tags := bindings.foldl (fun set b => Text.insert b.tag set) s.tags
    bindings := s.bindings ++ bindings.map fun b => (b.tag, b.function) }

lemma mem_functions_adding {name : Text} :
    name ∈ (registry.adding fs bs).functions ↔ name ∈ registry.functions ∨ name ∈ fs.map (·.name) := by
  show name ∈ (registry.withFunctions (fs.map (·.name))).functions ↔ _
  rw [withFunctions, Text.mem_foldl_insert]
  exact or_comm

lemma mem_tags_adding : tag ∈ (registry.adding fs bs).tags ↔ tag ∈ registry.tags ∨ tag ∈ bs.map (·.tag) := by
  show tag ∈ bs.foldl (fun set b => Text.insert b.tag set) registry.tags ↔ _
  rw [← List.foldl_map (f := fun b : Binding => b.tag) (g := fun set x => Text.insert x set), Text.mem_foldl_insert]
  exact or_comm

/-- Entries that name the function of their tag leave every tag its function. -/
lemma boundFunction_adding (hbs : ∀ b ∈ bs, b.function = registry.boundFunction b.tag) :
    (registry.adding fs bs).boundFunction tag = registry.boundFunction tag := by
  show ((registry.bindings ++ bs.map fun b => (b.tag, b.function)).lookup tag).getD (Rule.defaultFunction tag) = _
  rw [List.lookup_append]
  cases hold : registry.bindings.lookup tag with
  | some name => simp [boundFunction, hold]
  | none =>
    rw [Option.none_or]
    cases hnew : (bs.map fun b => (b.tag, b.function)).lookup tag with
    | none => simp [boundFunction, hold]
    | some name =>
      obtain ⟨l₁, l₂, hmem, -⟩ := List.lookup_eq_some_iff.1 hnew
      have hpair : (tag, name) ∈ bs.map fun b => (b.tag, b.function) := by rw [hmem]; simp
      obtain ⟨b, hb, heq⟩ := List.mem_map.1 hpair
      obtain ⟨rfl, rfl⟩ := Prod.mk.inj heq
      exact hbs b hb

lemma isImplemented_adding (hbs : ∀ b ∈ bs, b.function = registry.boundFunction b.tag) :
    (registry.adding fs bs).isImplemented tag ↔
      registry.isImplemented tag ∨ registry.boundFunction tag ∈ fs.map (·.name) := by
  rw [isImplemented, isImplemented, boundFunction_adding hbs, Bool.or_eq_true, Bool.or_eq_true, List.contains_iff_mem,
    List.contains_iff_mem, List.contains_iff_mem, mem_functions_adding, or_assoc]

end Registry

namespace Additions

lemma function_of_mem_bindings (hb : b ∈ (compute candidates types required registry).bindings) :
    b.tag ∈ required.tags ∧ b.tag ∉ registry.tags ∧ b.function = registry.boundFunction b.tag := by
  rw [bindings_compute] at hb
  obtain ⟨tag, htag, rfl⟩ := List.mem_map.1 hb
  obtain ⟨hmem, hnot⟩ := List.mem_filter.1 htag
  exact ⟨hmem, by simpa using hnot, rfl⟩

lemma name_of_mem_functions (hf : f ∈ (compute candidates types required registry).functions) :
    f.tag ∈ required.tags ∧ registry.isImplemented f.tag = false ∧ f.name = registry.boundFunction f.tag := by
  rw [functions_compute] at hf
  obtain ⟨tag, htag, rfl⟩ := List.mem_map.1 (firstOfEachName_sublist.mem hf)
  obtain ⟨hmem, hnot⟩ := List.mem_filter.1 htag
  exact ⟨hmem, by simpa using hnot, rfl⟩

/-- A required tag that has no function gets one, perhaps with another tag. -/
lemma boundFunction_mem_functions (htag : tag ∈ required.tags) (hnot : registry.isImplemented tag = false) :
    registry.boundFunction tag ∈ (compute candidates types required registry).functions.map (·.name) := by
  rw [functions_compute, mem_names_firstOfEachName, List.map_map]
  exact ⟨List.mem_map.2 ⟨tag, List.mem_filter.2 ⟨htag, by rw [hnot]; rfl⟩, rfl⟩, List.not_mem_nil⟩

/-- A registry with functions and entries in addition is complete exactly if they make up for what it lacks. -/
lemma keepsRegistry_adding_iff (hbs : ∀ b ∈ bs, b.function = registry.boundFunction b.tag) :
    (compute candidates types required (registry.adding fs bs)).keepsRegistry ↔ ∀ tag ∈ required.tags,
      (registry.isImplemented tag ∨ registry.boundFunction tag ∈ fs.map (·.name)) ∧
        (tag ∈ registry.tags ∨ tag ∈ bs.map (·.tag)) := by
  rw [keepsRegistry_compute_iff, Requirements.tags, List.forall_mem_map]
  refine forall₂_congr fun r _ => ?_
  rw [Registry.isImplemented_adding hbs, Registry.mem_tags_adding]

/-! ### What is listed -/

variable (candidates types registry)

/-- Functions to add stand in the order of their tags. -/
lemma isAscending_functions (h : IsAscending required.tags) :
    IsAscending ((compute candidates types required registry).functions.map (·.tag)) := by
  rw [functions_compute]
  refine List.pairwise_map.2 (List.Pairwise.sublist firstOfEachName_sublist ?_)
  exact List.pairwise_map.2 (List.Pairwise.filter _ h)

lemma nodup_names : ((compute candidates types required registry).functions.map (·.name)).Nodup := by
  rw [functions_compute]
  exact nodup_firstOfEachName

lemma nodup_bindings (h : IsAscending required.tags) : ((compute candidates types required registry).bindings.map (·.tag)).Nodup := by
  rw [bindings_compute, List.map_map]
  exact List.Pairwise.map _ (fun _ _ hne => hne.2) (List.Pairwise.filter _ h)

lemma not_declared (hf : f ∈ (compute candidates types required registry).functions) :
    '.' ∉ f.name ∧ f.name ∉ registry.functions := by
  obtain ⟨-, hnot, hname⟩ := name_of_mem_functions hf
  rw [Registry.isImplemented, ← hname, Bool.or_eq_false_iff] at hnot
  simpa using hnot

/-! ### All of it, and all but one -/

lemma keepsRegistry_adding_all : (compute candidates types required (registry.adding
    (compute candidates types required registry).functions (compute candidates types required registry).bindings)).keepsRegistry := by
  rw [keepsRegistry_adding_iff fun b hb => (function_of_mem_bindings hb).2.2]
  refine fun tag htag => ⟨?_, ?_⟩
  · cases himplemented : registry.isImplemented tag with
    | true => exact .inl rfl
    | false => exact .inr (boundFunction_mem_functions htag himplemented)
  · by_cases hknown : tag ∈ registry.tags
    · exact .inl hknown
    · refine .inr (List.mem_map.2 ⟨⟨tag, registry.boundFunction tag⟩, ?_, rfl⟩)
      rw [bindings_compute]
      exact List.mem_map_of_mem (List.mem_filter.2 ⟨htag, by simpa using hknown⟩)

/-- What is left out of distinct things is not among the others. -/
lemma left_out {α β : Type} {key : α → β} {xs ys : List α} {x : α} (h : ((xs ++ x :: ys).map key).Nodup) :
    key x ∉ (xs ++ ys).map key := by
  rw [List.map_append, List.map_cons, List.nodup_middle, List.nodup_cons] at h
  rw [List.map_append]
  exact h.1

/-- No other function has the name of the one that is left out. -/
lemma not_keepsRegistry_without_function (hsplit : (compute candidates types required registry).functions = fs ++ f :: gs) :
    (compute candidates types required (registry.adding (fs ++ gs)
      (compute candidates types required registry).bindings)).keepsRegistry = false := by
  have hf : f ∈ (compute candidates types required registry).functions := by rw [hsplit]; simp
  obtain ⟨htag, hnot, hname⟩ := name_of_mem_functions hf
  have hnames := @nodup_names candidates types required registry
  rw [hsplit] at hnames
  have hleft := left_out hnames
  rw [← Bool.not_eq_true, keepsRegistry_adding_iff fun b hb => (function_of_mem_bindings hb).2.2]
  intro hall
  rcases (hall f.tag htag).1 with himplemented | hmem
  · rw [himplemented] at hnot
    cases hnot
  · rw [← hname] at hmem
    exact hleft hmem

/-- No other entry has the tag of the one that is left out. -/
lemma not_keepsRegistry_without_binding (h : IsAscending required.tags)
    (hsplit : (compute candidates types required registry).bindings = bs ++ b :: cs) :
    (compute candidates types required (registry.adding (compute candidates types required registry).functions
      (bs ++ cs))).keepsRegistry = false := by
  have hmem : ∀ c ∈ bs ++ b :: cs, c.tag ∈ required.tags ∧ c.tag ∉ registry.tags ∧ c.function = registry.boundFunction c.tag := by
    rw [← hsplit]
    exact fun c hc => function_of_mem_bindings hc
  obtain ⟨htag, hnot, -⟩ := hmem b (by simp)
  have hleft := left_out (hsplit ▸ nodup_bindings candidates types registry h)
  have hrest : ∀ c ∈ bs ++ cs, c.function = registry.boundFunction c.tag := fun c hc =>
    (hmem c ((List.sublist_cons_self b cs).append_left bs |>.mem hc)).2.2
  rw [← Bool.not_eq_true, keepsRegistry_adding_iff hrest]
  intro hall
  exact (hall b.tag htag).2.elim hnot hleft

/-- **The additions suffice, and each of them is needed.**  The functions to add stand in strict order of their tags, their
names are distinct, not qualified and not declared yet.  With all functions and entries added nothing is missing, and with any
one of them left out something is. -/
theorem additions_suffice (h : IsAscending required.tags) :
    let additions := compute candidates types required registry
    IsAscending (additions.functions.map (·.tag)) ∧ (additions.functions.map (·.name)).Nodup ∧
      (∀ f ∈ additions.functions, '.' ∉ f.name ∧ f.name ∉ registry.functions) ∧
      (compute candidates types required (registry.adding additions.functions additions.bindings)).keepsRegistry ∧
      (∀ fs f gs, additions.functions = fs ++ f :: gs →
        (compute candidates types required (registry.adding (fs ++ gs) additions.bindings)).keepsRegistry = false) ∧
      ∀ bs b cs, additions.bindings = bs ++ b :: cs →
        (compute candidates types required (registry.adding additions.functions (bs ++ cs))).keepsRegistry = false :=
  ⟨isAscending_functions _ _ _ h, nodup_names _ _ _, fun _ hf => not_declared _ _ _ hf, keepsRegistry_adding_all _ _ _,
    fun _ _ _ hsplit => not_keepsRegistry_without_function _ _ _ hsplit,
    fun _ _ _ hsplit => not_keepsRegistry_without_binding _ _ _ h hsplit⟩

/-- A type with two tags that share a function, one of another package and one whose function is not declared. -/
def sharingCandidates : List Candidate := [⟨"AReq", [⟨"Code", "validate:\"a_b,a-b,ext,zip\""⟩]⟩]

def partialRegistry : Text :=
  "var registerValidation = map[string]validator.Func\x7b\n\t\"ext\": rules.Ext,\n\t\"zip\": checkZip,\n\x7d\n"

/-- The function that two tags share is added once, and is missing for both when it is left out. -/
theorem additions_of_sharingCandidates :
    let required := collect sharingCandidates true
    let registry := (Registry.ofSource partialRegistry).withFunctions ["validateMobile"]
    let additions := compute sharingCandidates [] required registry
    IsAscending required.tags ∧
      additions.functions = [⟨"a-b", "validateA_b"⟩, ⟨"idcard", "validateIdCard"⟩, ⟨"zip", "checkZip"⟩] ∧
      additions.bindings.map (·.tag) = ["a-b", "a_b", "idcard", "mobile"] ∧
      (compute sharingCandidates [] required (registry.adding additions.functions additions.bindings)).keepsRegistry ∧
      (compute sharingCandidates [] required (registry.adding [⟨"idcard", "validateIdCard"⟩, ⟨"zip", "checkZip"⟩]
        additions.bindings)).keepsRegistry = false := by
  intro required registry additions
  have hfunctions : additions.functions = [⟨"a-b", "validateA_b"⟩, ⟨"idcard", "validateIdCard"⟩, ⟨"zip", "checkZip"⟩] := by
    decide +kernel
  have htags : IsAscending required.tags := Requirements.isAscending_collect
  obtain ⟨-, -, -, hall, hone, -⟩ := additions_suffice sharingCandidates [] registry htags
  exact ⟨htags, hfunctions, by decide +kernel, hall, hone [] _ _ hfunctions⟩

end Additions

end RuleWeaver
