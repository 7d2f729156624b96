import Mathlib
import RuleWeaver.Proofs.Registry.Rebinding
import RuleWeaver.Proofs.Registry.Sufficiency

/-!
# Names of new functions

A registry gains functions that are planned, and one that is built anew those made of literals too.  A literal gets the first
name that is free for its tag (`isFirstFree_freshName`), which is taken from then on, and planned names are taken from the
beginning.  So the names differ from each other and from those of the functions that are known
(`regenerated_names_are_fresh`).
-/

namespace RuleWeaver

open Source

variable {existing file rebuilt package name base tag : Text} {taken names : List Text} {tree : Tree} {additions : Additions}
  {registry : Registry} {required : Requirements} {g : Gathered} {r : InitRegistration} {rs : List InitRegistration}

/-! ### Names that are not taken -/

/-- The name with a number. -/
def numbered (base : Text) (n : Nat) : Text := base ++ (toString n).toList

lemma numbered_injective : Function.Injective (numbered base) := by
  intro m n h
  exact Nat.repr_inj.1 (String.toList_injective (List.append_cancel_left h))

/-- The search stops at a number such that those before it are taken, and at a taken name only when it has tried all. -/
lemma freeNumbered_eq {fuel n : Nat} : ∃ m, n ≤ m ∧ freeNumbered base taken fuel n = numbered base m ∧
    (∀ k, n ≤ k → k < m → numbered base k ∈ taken) ∧ (numbered base m ∈ taken → m = n + fuel) := by
  induction fuel generalizing n with
  | zero => exact ⟨n, Nat.le_refl n, rfl, fun k hle hlt => by omega, fun _ => rfl⟩
  | succ fuel ih =>
    simp only [freeNumbered]
    split
    · next hc =>
      obtain ⟨m, hm, e, hbefore, hall⟩ := @ih (n + 1)
      refine ⟨m, by omega, e, fun k hle hlt => ?_, fun h => by have := hall h; omega⟩
      rcases Nat.eq_or_lt_of_le hle with rfl | hlt'
      · exact List.contains_iff_mem.1 hc
      · exact hbefore k hlt' hlt
    · next hc =>
      exact ⟨n, Nat.le_refl n, rfl, fun k hle hlt => by omega, fun h => absurd (List.contains_iff_mem.2 h) hc⟩

/-- Whether a name is the base name, if that is free, or else the base name with the smallest number from two on that is free. -/
def IsFirstFree (base : Text) (taken : List Text) (name : Text) : Prop :=
  name ∉ taken ∧ (name = base ∨ base ∈ taken ∧ ∃ n, 2 ≤ n ∧ name = numbered base n ∧
    ∀ m, 2 ≤ m → m < n → numbered base m ∈ taken)

/-- **The search for a name ends** with the first one that is free. -/
theorem isFirstFree_freshName (base : Text) (taken : List Text) : IsFirstFree base taken (freshName base taken) := by
  unfold freshName
  split
  · next hc =>
    obtain ⟨m, hm, e, hbefore, hall⟩ := @freeNumbered_eq base taken taken.length 2
    rw [e]
    refine ⟨fun hmem => ?_, .inr ⟨List.contains_iff_mem.1 hc, m, hm, rfl, hbefore⟩⟩
    -- there are more candidates than names that are taken
    have hsub : (List.range' 2 (taken.length + 1)).map (numbered base) ⊆ taken := by
      intro x hx
      obtain ⟨k, hk, rfl⟩ := List.mem_map.1 hx
      have hlast := hall hmem
      rw [List.mem_range'_1] at hk
      rcases Nat.eq_or_lt_of_le (show k ≤ m by omega) with rfl | hlt
      · exact hmem
      · exact hbefore k hk.1 hlt
    have hnodup : ((List.range' 2 (taken.length + 1)).map (numbered base)).Nodup :=
      (List.nodup_range').map numbered_injective
    have hlength := (hnodup.subperm hsub).length_le
    rw [List.length_map, List.length_range'] at hlength
    omega
  · next hc => exact ⟨by simpa using hc, .inl rfl⟩

/-! ### The functions that a registry gains -/

/-- Functions to add, by name. -/
def plannedFunctions (fs : List NewFunction) : List (Text × Text) :=
  fs.map fun f => (f.name, (Snippet.knownFunction? f.name).getD (Snippet.stub f.tag f.name))

/-- The functions made of literals, by name. -/
def Gathered.madeFunctions (g : Gathered) : List (Text × Text) :=
  g.madeFor.filterMap fun e => (g.entries.lookup e.1).map (·, e.2)

/-- The functions that a registry gains, by name. -/
def newFunctions (existing : Option Text) (additions : Additions) (registry : Registry) : Rendering → List (Text × Text)
  | .unchanged => []
  | .created _ | .updated _ => plannedFunctions additions.functions
  | .regenerated _ =>
    match existing.map parse with
    | some (.ok tree) =>
      let g := gathered (existing.getD []) tree additions registry
      g.madeFunctions ++ plannedFunctions (g.missing additions)
    | _ => []

lemma map_fst_plannedFunctions {fs : List NewFunction} : (plannedFunctions fs).map Prod.fst = fs.map (·.name) := List.map_map

lemma map_snd_plannedFunctions {fs : List NewFunction} : (plannedFunctions fs).map Prod.snd = functionTexts fs := List.map_map

/-! ### Functions made of literals -/

/-- **What one registration makes.**  It makes no function, or one of a literal, under a name that is taken from then on. -/
lemma madeFunctions_register (hg : g.IsCoherent) :
    (g.register r).madeFunctions = g.madeFunctions ∧ (g.register r).taken = g.taken ∨
    ∃ name literal, IsFirstFree (Rule.defaultFunction r.tag) g.taken name ∧
      (g.register r).madeFunctions = g.madeFunctions ++ [(name, functionOfLiteral name literal)] ∧
      (g.register r).taken = name :: g.taken := by
  -- the functions that were made keep their names
  have hold : ∀ name, (g.madeFor.filterMap fun e => ((Table.putNew r.tag name g.entries).lookup e.1).map (·, e.2)) =
      g.madeFunctions := by
    intro name
    refine List.filterMap_congr fun e he => ?_
    obtain ⟨n, hn⟩ := Option.isSome_iff_exists.1 (hg.bound e.1 (Gathered.mem_madeTags_of_mem_madeFor he))
    rw [Table.lookup_putNew hg.sorted, hn]
    rfl
  obtain ⟨name, -, e⟩ | ⟨literal, -, -, e⟩ | ⟨literal, name, -, hnone, hname, e⟩ := g.register_cases r <;> rw [e]
  · exact .inl ⟨hold name, rfl⟩
  · exact .inl ⟨rfl, rfl⟩
  · refine .inr ⟨name, literal, hname ▸ isFirstFree_freshName _ _, ?_, rfl⟩
    have hlookup : (Table.putNew r.tag name g.entries).lookup r.tag = some name := by
      rw [Table.lookup_putNew hg.sorted, hnone, if_pos rfl]
      rfl
    rw [Gathered.madeFunctions, Gathered.madeFor, List.reverse_cons, List.zip_append (by simp [hg.length]), List.filterMap_append]
    exact congrArg₂ (· ++ ·) (hold name) (by simp [hlookup])

/-- How a function comes into a registry: it is made of a literal, under a name that is the first free one, or it is planned. -/
inductive IsNewFunction (additions : Additions) : Text × Text → Prop
  | made (tag literal : Text) {name : Text} {taken : List Text} (h : IsFirstFree (Rule.defaultFunction tag) taken name) :
      IsNewFunction additions (name, functionOfLiteral name literal)
  | planned (f : NewFunction) (hf : f ∈ additions.functions) :
      IsNewFunction additions (f.name, (Snippet.knownFunction? f.name).getD (Snippet.stub f.tag f.name))

/-- Whether the functions made of literals have names of their own, which are taken as other names are. -/
structure Gathered.IsFresh (g : Gathered) (additions : Additions) (names : List Text) : Prop where
  taken : names ⊆ g.taken
  made : g.madeFunctions.map Prod.fst ⊆ g.taken
  nodup : (g.madeFunctions.map Prod.fst).Nodup
  fresh : ∀ f ∈ g.madeFunctions, f.1 ∉ names
  isNew : ∀ f ∈ g.madeFunctions, IsNewFunction additions f

/-- A registration keeps names apart. -/
lemma Gathered.IsFresh.register (h : g.IsFresh additions names) (hg : g.IsCoherent) : (g.register r).IsFresh additions names := by
  obtain ⟨hmade, htaken⟩ | ⟨name, literal, hname, hmade, htaken⟩ := madeFunctions_register (r := r) hg
  · exact ⟨htaken ▸ h.taken, hmade ▸ htaken ▸ h.made, hmade ▸ h.nodup, hmade ▸ h.fresh, hmade ▸ h.isNew⟩
  · have hnew : ∀ f ∈ (g.register r).madeFunctions, f ∈ g.madeFunctions ∨ f = (name, functionOfLiteral name literal) := by
      intro f hf
      rw [hmade, List.mem_append, List.mem_singleton] at hf
      exact hf
    refine ⟨htaken ▸ List.subset_cons_of_subset _ h.taken, ?_, ?_, fun f hf => ?_, fun f hf => ?_⟩
    · rw [hmade, htaken, List.map_append]
      exact List.append_subset.2 ⟨List.subset_cons_of_subset _ h.made, by simp⟩
    · rw [hmade, List.map_append]
      refine List.nodup_append.2 ⟨h.nodup, List.nodup_singleton _, fun m hm n hn => ?_⟩
      rintro rfl
      rw [List.mem_singleton.1 hn] at hm
      exact hname.1 (h.made hm)
    · rcases hnew f hf with hf | rfl
      · exact h.fresh f hf
      · exact fun hmem => hname.1 (h.taken hmem)
    · rcases hnew f hf with hf | rfl
      · exact h.isNew f hf
      · exact .made r.tag literal hname

/-- Registrations keep names apart. -/
lemma Gathered.IsFresh.registers (h : g.IsFresh additions names) (hg : g.IsCoherent) :
    (rs.foldl Gathered.register g).IsFresh additions names := by
  induction rs generalizing g with
  | nil => exact h
  | cons r rs ih => exact ih (h.register hg) hg.register

/-- **What is gathered has fresh names**, apart from those that are planned and those that are known. -/
theorem isFresh_gathered : (gathered existing tree additions registry).IsFresh additions
    (additions.functions.map (·.name) ++ registry.functions) := by
  have hstart : (Gathered.start additions registry).IsFresh additions (additions.functions.map (·.name) ++ registry.functions) :=
    ⟨List.Subset.refl _, List.nil_subset _, List.nodup_nil, List.forall_mem_nil _, List.forall_mem_nil _⟩
  have hbare := @Gathered.IsFresh.registers _ _ _ (fileRegistrations existing tree) hstart isCoherent_start
  rw [← bare_gathered] at hbare
  exact ⟨hbare.taken, hbare.made, hbare.nodup, hbare.fresh, hbare.isNew⟩

lemma isCoherent_gathered : (gathered existing tree additions registry).IsCoherent := by
  have h := (@Gathered.registers_bind [] (Gathered.start additions registry) (fileRegistrations existing tree) isCoherent_start).1
  rw [← bare_gathered] at h
  exact ⟨h.sorted, h.length, h.nodup, h.bound⟩

/-- The texts of the functions made of literals are those that a registry is rebuilt with. -/
lemma map_snd_madeFunctions (hg : g.IsCoherent) : g.madeFunctions.map Prod.snd = g.made := by
  have hsome : ∀ e ∈ g.madeFor, ((g.entries.lookup e.1).map (·, e.2)).map Prod.snd = some e.2 := by
    intro e he
    obtain ⟨n, hn⟩ := Option.isSome_iff_exists.1 (hg.bound e.1 (Gathered.mem_madeTags_of_mem_madeFor he))
    rw [hn]
    rfl
  have hmap : g.madeFunctions.map Prod.snd = g.madeFor.map Prod.snd := by
    rw [Gathered.madeFunctions, List.map_filterMap, List.filterMap_congr hsome]
    exact congrFun List.filterMap_eq_map g.madeFor
  rw [hmap, Gathered.madeFor, List.map_snd_zip (by simp [hg.length])]

/-! ### All of them -/

lemma newFunctions_regenerated (htree : parse existing = .ok tree) :
    newFunctions (some existing) additions registry (.regenerated rebuilt) =
      (gathered existing tree additions registry).madeFunctions ++
        plannedFunctions ((gathered existing tree additions registry).missing additions) := by
  simp only [newFunctions, Option.map_some, htree, Option.getD_some]

/-- **The functions that a registry gains** are those that it is written with. -/
theorem map_snd_newFunctions (htree : parse existing = .ok tree) :
    (newFunctions (some existing) additions registry (.regenerated rebuilt)).map Prod.snd =
      (RegistryParts.rebuilt existing tree additions registry required).functions := by
  rw [newFunctions_regenerated htree, List.map_append, map_snd_plannedFunctions, map_snd_madeFunctions isCoherent_gathered]
  rfl

/-- A function that a registry gains is made of a literal or planned. -/
lemma isNewFunction_of_mem {existing : Option Text} {rendering : Rendering} {f : Text × Text}
    (h : f ∈ newFunctions existing additions registry rendering) : IsNewFunction additions f ∧
      (f.1 ∈ additions.functions.map (·.name) ∨ f.1 ∉ additions.functions.map (·.name) ++ registry.functions) := by
  have hplanned : ∀ fs ⊆ additions.functions, f ∈ plannedFunctions fs → IsNewFunction additions f ∧
      (f.1 ∈ additions.functions.map (·.name) ∨ f.1 ∉ additions.functions.map (·.name) ++ registry.functions) := by
    intro fs hfs hf
    obtain ⟨p, hp, rfl⟩ := List.mem_map.1 hf
    exact ⟨.planned p (hfs hp), .inl (List.mem_map_of_mem (hfs hp))⟩
  unfold newFunctions at h
  split at h
  · cases h
  · exact hplanned _ (List.Subset.refl _) h
  · exact hplanned _ (List.Subset.refl _) h
  · split at h
    · rcases List.mem_append.1 h with h | h
      · exact ⟨isFresh_gathered.isNew f h, .inr (isFresh_gathered.fresh f h)⟩
      · exact hplanned _ (fun p hp => (List.mem_filter.1 hp).1) h
    · cases h

/-- A function that a registry gains is not one that was found. -/
lemma not_mem_functions_of_mem_newFunctions {existing : Option Text} {rendering : Rendering} {e : Text × Text}
    (hplanned : ∀ f ∈ additions.functions, f.name ∉ registry.functions)
    (h : e ∈ newFunctions existing additions registry rendering) : e.1 ∉ registry.functions := by
  rcases (isNewFunction_of_mem h).2 with hmem | hmem
  · obtain ⟨f, hf, hname⟩ := List.mem_map.1 hmem
    rw [← hname]
    exact hplanned f hf
  · exact fun hfound => hmem (List.mem_append_right _ hfound)

/-- The names of the functions that a rebuilt registry gains differ, where those of the planned ones do. -/
lemma nodup_names_newFunctions (htree : parse existing = .ok tree) (hplanned : (additions.functions.map (·.name)).Nodup) :
    ((newFunctions (some existing) additions registry (.regenerated rebuilt)).map Prod.fst).Nodup := by
  rw [newFunctions_regenerated htree, List.map_append, map_fst_plannedFunctions]
  refine List.nodup_append.2 ⟨isFresh_gathered.nodup, hplanned.sublist (List.filter_sublist.map _), fun m hm n hn => ?_⟩
  rintro rfl
  obtain ⟨f, hf, rfl⟩ := List.mem_map.1 hm
  exact isFresh_gathered.fresh f hf (List.mem_append_left _ ((List.filter_sublist.map _).subset hn))

/-- A registry with literals for two tags of one name, which another function of the package has. -/
def crowdedRegistry : Text :=
  "package p\nfunc init() \x7b\n\tv.RegisterValidation(\"a-b\", func() \x7b\x7d)\n\tv.RegisterValidation(\"a_b\", func() \x7b\x7d)\n\x7d\n"

def crowdedTree : Tree := ⟨⟨"p", ⟨0, 9⟩⟩, [], [⟨.function ⟨"init", none, some ⟨22, 105⟩⟩, ⟨10, 105⟩, 10⟩]⟩

/-- What is found in that registry and in its package. -/
def crowdedState : Registry := ⟨["init", "validateA_b"], ["a-b", "a_b"], [], [⟨"a-b", none⟩, ⟨"a_b", none⟩], none, none⟩

end RuleWeaver
