import RuleWeaver.Proofs.Registry.RuleMap
import Mathlib.Data.List.Nodup

/-!
# What tags are bound to anew

When a registry is rebuilt, a tag is bound to the function that counts for it: that of the first call that registers it by
name, and without one that of the first statement that registers it.  A later registration replaces an earlier one when the
program runs, so the binding stays what it was only where the last registration is the one that counts
(`regenerated_binds_last_iff`).
-/

namespace RuleWeaver

open Source

variable {existing file rebuilt package tag : Text} {tree : Tree} {additions : Additions} {registry : Registry}
  {required : Requirements} {g : Gathered} {r : InitRegistration} {rs : List InitRegistration} {a b : FunctionArgument}

/-! ### The function that counts -/

/-- The registrations that are taken out of a declaration. -/
def initRegistrations (existing : Text) (d : Decl) : List InitRegistration :=
  match d.kind with
  | .function f =>
    if f.receiver.isNone ∧ f.name = "init".toList then ((extractRegistrations? existing d f).map (·.registrations)).getD [] else []
  | _ => []

/-- The registrations that are taken out of a file, in source order. -/
def fileRegistrations (existing : Text) (tree : Tree) : List InitRegistration := tree.decls.flatMap (initRegistrations existing)

/-- The function by which a tag is registered first. -/
def firstFunction? (rs : List InitRegistration) (tag : Text) : Option FunctionArgument := (rs.find? (·.tag = tag)).map (·.function)

/-- The function by which a tag is registered last. -/
def lastFunction? (rs : List InitRegistration) (tag : Text) : Option FunctionArgument := firstFunction? rs.reverse tag

/-- The name in the first call that registers a tag by name. -/
def firstName? (existing tag : Text) : Option Text :=
  ((Detection.registrations existing).find? fun c => c.tag = tag ∧ c.function.isSome).bind (·.function)

/-- The function that counts for a tag. -/
def countingFunction? (existing : Text) (tree : Tree) (tag : Text) : Option FunctionArgument :=
  ((firstName? existing tag).map .named).or (firstFunction? (fileRegistrations existing tree) tag)

/-- Whether two registrations are of the same function: of one name, or of literals that become the same text. -/
def FunctionArgument.Same : FunctionArgument → FunctionArgument → Prop
  | .named m, .named n => m = n
  | .literal s, .literal t => ∀ name, functionOfLiteral name s = functionOfLiteral name t
  | _, _ => False

lemma functionOfLiteral_congr {s t name : Text} (h : functionOfLiteral name s = functionOfLiteral name t) :
    ∀ name', functionOfLiteral name' s = functionOfLiteral name' t := by
  intro name'
  unfold functionOfLiteral at h ⊢
  cases hs : textLines s with
  | nil =>
    cases ht : textLines t with
    | nil => rfl
    | cons => simp [hs, ht] at h
  | cons =>
    cases ht : textLines t with
    | nil => simp [hs, ht] at h
    | cons =>
      simp only [hs, ht, List.append_assoc, List.append_cancel_left_eq] at h ⊢
      exact h

/-! ### Gathering registrations -/

namespace Gathered

/-- Whether what is gathered fits together: a tag has at most one function that was made for it, and then an entry. -/
structure IsCoherent (g : Gathered) : Prop where
  sorted : g.entries.IsSorted
  length : g.madeTags.length = g.made.length
  nodup : g.madeTags.Nodup
  bound : ∀ tag ∈ g.madeTags, (g.entries.lookup tag).isSome

/-- The functions made of literals, each with its tag. -/
def madeFor (g : Gathered) : List (Text × Text) := g.madeTags.reverse.zip g.made

/-- Whether a tag is bound to a function: to a name that is no function made for it, or to the function made of a literal. -/
def Binds (g : Gathered) (tag : Text) : FunctionArgument → Prop
  | .named name => g.entries.lookup tag = some name ∧ tag ∉ g.madeTags
  | .literal text => ∃ name, g.entries.lookup tag = some name ∧ (tag, functionOfLiteral name text) ∈ g.madeFor

lemma mem_madeTags_of_mem_madeFor {e : Text × Text} (h : e ∈ g.madeFor) : e.1 ∈ g.madeTags := by
  obtain ⟨t, s⟩ := e
  exact List.mem_reverse.1 (List.of_mem_zip h).1

lemma IsCoherent.eq_of_mem_madeFor (hg : g.IsCoherent) {s t : Text} (hs : (tag, s) ∈ g.madeFor) (ht : (tag, t) ∈ g.madeFor) :
    s = t := by
  have hnodup : (g.madeFor.map Prod.fst).Nodup := by
    rw [madeFor, List.map_fst_zip (by rw [List.length_reverse, hg.length])]
    exact List.nodup_reverse.2 hg.nodup
  exact (Prod.mk.inj (List.inj_on_of_nodup_map hnodup hs ht rfl)).2

/-- A tag is bound to one function. -/
lemma Binds.same (hg : g.IsCoherent) (ha : g.Binds tag a) (hb : g.Binds tag b) : a.Same b := by
  cases a with
  | named m =>
    cases b with
    | named n => exact Option.some.inj (ha.1.symm.trans hb.1)
    | literal t =>
      obtain ⟨name, -, hmem⟩ := hb
      exact absurd (mem_madeTags_of_mem_madeFor hmem) ha.2
  | literal s =>
    obtain ⟨name, hname, hmem⟩ := ha
    cases b with
    | named n => exact absurd (mem_madeTags_of_mem_madeFor hmem) hb.2
    | literal t =>
      obtain ⟨name', hname', hmem'⟩ := hb
      obtain rfl : name = name' := Option.some.inj (hname.symm.trans hname')
      exact functionOfLiteral_congr (hg.eq_of_mem_madeFor hmem hmem')

/-- To be bound to a function is to be bound to any function that is the same. -/
lemma Binds.of_same (hab : a.Same b) (ha : g.Binds tag a) : g.Binds tag b := by
  cases a with
  | named m =>
    cases b with
    | named n =>
      obtain rfl : m = n := hab
      exact ha
    | literal => exact hab.elim
  | literal s =>
    cases b with
    | named => exact hab.elim
    | literal t =>
      obtain ⟨name, hname, hmem⟩ := ha
      exact ⟨name, hname, by rwa [← hab name]⟩

lemma Binds.isSome (h : g.Binds tag a) : (g.entries.lookup tag).isSome := by
  cases a with
  | named m => exact Option.isSome_of_eq_some h.1
  | literal s =>
    obtain ⟨m, hm, -⟩ := h
    exact Option.isSome_of_eq_some hm

/-- A registration leaves what fits together so. -/
lemma IsCoherent.register (hg : g.IsCoherent) : (g.register r).IsCoherent := by
  have hbound : ∀ {name : Text}, ∀ t ∈ g.madeTags, ((Table.putNew r.tag name g.entries).lookup t).isSome :=
    fun t ht => Table.isSome_lookup_putNew.2 (.inr (hg.bound t ht))
  obtain ⟨name, -, e⟩ | ⟨text, -, -, e⟩ | ⟨text, name, -, hnone, -, e⟩ := g.register_cases r <;> rw [e]
  · exact ⟨hg.sorted.putNew, hg.length, hg.nodup, hbound⟩
  · exact hg
  · have hfree : r.tag ∉ g.madeTags := fun hmem => Option.not_isSome_iff_eq_none.2 hnone (hg.bound _ hmem)
    refine ⟨hg.sorted.putNew, by simp [hg.length], List.nodup_cons.2 ⟨hfree, hg.nodup⟩, ?_⟩
    intro t ht
    rcases List.mem_cons.1 ht with rfl | ht
    · exact Table.isSome_lookup_putNew.2 (.inl rfl)
    · exact hbound t ht

/-- A tag that is bound stays bound to its function. -/
lemma Binds.register (hg : g.IsCoherent) (h : g.Binds tag a) : (g.register r).Binds tag a := by
  have hlookup : ∀ {m : Text}, g.entries.lookup tag = some m → ∀ name, (Table.putNew r.tag name g.entries).lookup tag = some m := by
    intro m hm name
    rw [Table.lookup_putNew hg.sorted, hm]
    rfl
  obtain ⟨name, -, e⟩ | ⟨text, -, -, e⟩ | ⟨text, name, -, hnone, -, e⟩ := g.register_cases r <;> rw [e]
  · cases a with
    | named m => exact ⟨hlookup h.1 name, h.2⟩
    | literal s =>
      obtain ⟨m, hm, hmem⟩ := h
      exact ⟨m, hlookup hm name, hmem⟩
  · exact h
  · have htag : tag ≠ r.tag := by
      rintro rfl
      exact Option.not_isSome_iff_eq_none.2 hnone h.isSome
    cases a with
    | named m => exact ⟨hlookup h.1 name, fun hmem => (List.mem_cons.1 hmem).elim htag h.2⟩
    | literal s =>
      obtain ⟨m, hm, hmem⟩ := h
      refine ⟨m, hlookup hm name, ?_⟩
      rw [madeFor, List.reverse_cons, List.zip_append (by simp [hg.length])]
      exact List.mem_append_left _ hmem

/-- A tag that is not bound becomes bound to the function of its registration. -/
lemma binds_register (hg : g.IsCoherent) (hnone : g.entries.lookup r.tag = none) : (g.register r).Binds r.tag r.function := by
  have hlookup : ∀ name, (Table.putNew r.tag name g.entries).lookup r.tag = some name := by
    intro name
    rw [Table.lookup_putNew hg.sorted, hnone, if_pos rfl]
    rfl
  obtain ⟨name, hfunction, e⟩ | ⟨text, -, hsome, -⟩ | ⟨text, name, hfunction, -, -, e⟩ := g.register_cases r
  · rw [e, hfunction]
    exact ⟨hlookup name, fun hmem => Option.not_isSome_iff_eq_none.2 hnone (hg.bound _ hmem)⟩
  · exact absurd hsome (Option.not_isSome_iff_eq_none.2 hnone)
  · rw [e, hfunction]
    refine ⟨name, hlookup name, ?_⟩
    rw [madeFor, List.reverse_cons, List.zip_append (by simp [hg.length])]
    exact List.mem_append_right _ (List.mem_singleton_self _)

/-- The entries of the other tags stay. -/
lemma lookup_register_of_ne (hg : g.IsCoherent) (h : tag ≠ r.tag) : (g.register r).entries.lookup tag = g.entries.lookup tag := by
  have hlookup : ∀ name, (Table.putNew r.tag name g.entries).lookup tag = g.entries.lookup tag := by
    intro name
    rw [Table.lookup_putNew hg.sorted, if_neg h, Option.or_none]
  obtain ⟨name, -, e⟩ | ⟨text, -, -, e⟩ | ⟨text, name, -, -, -, e⟩ := g.register_cases r <;> rw [e]
  · exact hlookup name
  · exact hlookup name

/-- **All registrations.**  A tag that is bound stays bound to its function, and another one becomes bound to the function by
which it is registered first. -/
theorem registers_bind (hg : g.IsCoherent) :
    (rs.foldl Gathered.register g).IsCoherent ∧ (∀ a, g.Binds tag a → (rs.foldl Gathered.register g).Binds tag a) ∧
      (g.entries.lookup tag = none → ∀ a ∈ firstFunction? rs tag, (rs.foldl Gathered.register g).Binds tag a) := by
  induction rs generalizing g with
  | nil => exact ⟨hg, fun _ => id, fun _ a ha => by cases ha⟩
  | cons r rs ih =>
    obtain ⟨hcoherent, hkeeps, hfirst⟩ := @ih (g.register r) hg.register
    refine ⟨hcoherent, fun a ha => hkeeps a (ha.register hg), fun hnone a ha => ?_⟩
    by_cases htag : tag = r.tag
    · subst htag
      obtain rfl : r.function = a := by simpa [firstFunction?] using ha
      exact hkeeps _ (binds_register hg hnone)
    · refine hfirst (by rw [lookup_register_of_ne hg htag, hnone]) a ?_
      simpa [firstFunction?, Ne.symm htag] using ha

end Gathered

/-! ### Gathering from a file -/

/-- What has been gathered, without the declarations that stay. -/
def Gathered.bare (g : Gathered) : Gathered := { g with kept := [] }

lemma bare_register : (g.register r).bare = g.bare.register r := by
  unfold Gathered.register
  split
  · rfl
  · by_cases h : (g.entries.lookup r.tag).isSome
    · rw [if_pos h, if_pos (show (g.bare.entries.lookup r.tag).isSome from h)]
    · rw [if_neg h, if_neg (show ¬ (g.bare.entries.lookup r.tag).isSome from h)]
      rfl

lemma bare_registers : (rs.foldl Gathered.register g).bare = rs.foldl Gathered.register g.bare := by
  induction rs generalizing g with
  | nil => rfl
  | cons r rs ih => rw [List.foldl_cons, List.foldl_cons, ih, bare_register]

lemma bare_declare {d : Decl} : (g.declare existing d).bare = (initRegistrations existing d).foldl Gathered.register g.bare := by
  unfold Gathered.declare initRegistrations
  cases d.kind with
  | types | consts => rfl
  | vars =>
    dsimp only
    split <;> rfl
  | function f =>
    dsimp only
    split
    · cases extractRegistrations? existing d f with
      | none => rfl
      | some remainder => exact bare_registers
    · rfl

/-- What has been gathered before the first declaration. -/
def Gathered.start (additions : Additions) (registry : Registry) : Gathered where
  entries := registry.bindings.foldl (fun t (tag, function) => Table.putNew tag function t) []
  taken := additions.functions.map (·.name) ++ registry.functions
  kept := []
  made := []
  madeTags := []

lemma isCoherent_start : (Gathered.start additions registry).IsCoherent where
  sorted := @Table.IsSorted.foldl [] (Text × Text) Prod.fst Prod.snd registry.bindings List.Pairwise.nil
  length := rfl
  nodup := List.nodup_nil
  bound := by simp [Gathered.start]

lemma bare_gathered : (gathered existing tree additions registry).bare =
    (fileRegistrations existing tree).foldl Gathered.register (Gathered.start additions registry) := by
  suffices key : ∀ (ds : List Decl) (g : Gathered), (ds.foldl (Gathered.declare existing) g).bare =
      (ds.flatMap (initRegistrations existing)).foldl Gathered.register g.bare from key tree.decls _
  intro ds
  induction ds with
  | nil => exact fun _ => rfl
  | cons d ds ih =>
    intro g
    rw [List.foldl_cons, ih, bare_declare, List.flatMap_cons, List.foldl_append]

lemma binds_bare : g.bare.Binds tag a ↔ g.Binds tag a := by
  cases a <;> rfl

lemma lookup_start : (Gathered.start additions registry).entries.lookup tag = registry.bindings.lookup tag := by
  have h : (registry.bindings.foldl (fun t (e : Text × Text) => Table.putNew e.1 e.2 t) []).lookup tag = _ :=
    Table.lookup_foldl List.Pairwise.nil
  refine h.trans ?_
  simp

lemma lookup_named {cs : List RegistrationCall} : (cs.filterMap fun c => c.function.map (c.tag, ·)).lookup tag =
    (cs.find? fun c => c.tag = tag ∧ c.function.isSome).bind (·.function) := by
  induction cs with
  | nil => rfl
  | cons c cs ih =>
    cases hc : c.function with
    | none => simp [hc, ih]
    | some name =>
      by_cases htag : c.tag = tag
      · simp [hc, htag]
      · simp [hc, htag, ih, Table.lookup_cons_eq, Ne.symm htag]

/-- In a registry without rule map the functions that are bound are those of calls. -/
lemma lookup_bindings {names : List Text} (hregistry : registry = (Registry.ofSource existing).withFunctions names)
    (hmap : registry.ruleMap = none) : registry.bindings.lookup tag = firstName? existing tag := by
  have hnone : Detection.findMap? Detection.ruleMapHead existing = none := by
    rw [hregistry] at hmap
    exact hmap
  rw [hregistry, firstName?, ← lookup_named]
  simp [Registry.withFunctions, Registry.ofSource, hnone]

/-- **What is gathered binds a tag to the function that counts.** -/
theorem gathered_binds {names : List Text} (hregistry : registry = (Registry.ofSource existing).withFunctions names)
    (hmap : registry.ruleMap = none) : (gathered existing tree additions registry).IsCoherent ∧
      ∀ a ∈ countingFunction? existing tree tag, (gathered existing tree additions registry).Binds tag a := by
  obtain ⟨hcoherent, hkeeps, hfirst⟩ :=
    @Gathered.registers_bind tag (Gathered.start additions registry) (fileRegistrations existing tree) isCoherent_start
  rw [← bare_gathered] at hcoherent hkeeps hfirst
  refine ⟨⟨hcoherent.sorted, hcoherent.length, hcoherent.nodup, hcoherent.bound⟩, fun a ha => binds_bare.1 ?_⟩
  rw [countingFunction?, ← lookup_bindings hregistry hmap] at ha
  cases hname : registry.bindings.lookup tag with
  | some name =>
    rw [hname] at ha
    cases ha
    exact hkeeps _ ⟨lookup_start.trans hname, List.not_mem_nil⟩
  | none =>
    rw [hname] at ha
    exact hfirst (lookup_start.trans hname) a ha

/-! ### The rebuilt rule map -/

/-- Whether a rebuilt registry binds a tag to a function: to a name that is no function made for the tag, or to the function
made of a literal, which it declares. -/
def RebuiltBinds (existing : Text) (tree : Tree) (additions : Additions) (registry : Registry) (required : Requirements)
    (tag : Text) (a : FunctionArgument) : Prop :=
  let g := gathered existing tree additions registry
  let p := RegistryParts.rebuilt existing tree additions registry required
  match a with
  | .named name => (tag, name) ∈ p.entries ∧ tag ∉ g.madeTags
  | .literal text => ∃ name, (tag, name) ∈ p.entries ∧ (tag, functionOfLiteral name text) ∈ g.madeFor ∧
      functionOfLiteral name text ∈ p.functions

lemma rebuiltBinds_iff (h : ((gathered existing tree additions registry).entries.lookup tag).isSome) :
    RebuiltBinds existing tree additions registry required tag a ↔ (gathered existing tree additions registry).Binds tag a := by
  have hentry : ∀ name, (tag, name) ∈ (RegistryParts.rebuilt existing tree additions registry required).entries ↔
      (gathered existing tree additions registry).entries.lookup tag = some name := by
    intro name
    rw [mem_rebuilt_entries, Rebinds]
    refine or_iff_left ?_
    rintro ⟨hnone, -⟩
    rw [hnone] at h
    cases h
  have hmade : ∀ e ∈ (gathered existing tree additions registry).madeFor,
      e.2 ∈ (RegistryParts.rebuilt existing tree additions registry required).functions := by
    intro e he
    exact List.mem_append_left _ (List.of_mem_zip he).2
  cases a with
  | named name => simp only [RebuiltBinds, hentry, Gathered.Binds]
  | literal text =>
    simp only [RebuiltBinds, hentry, Gathered.Binds]
    exact exists_congr fun name => and_congr_right fun _ => and_iff_left_of_imp fun hmem => hmade _ hmem

lemma exists_firstFunction? (h : a ∈ lastFunction? rs tag) : ∃ b, firstFunction? rs tag = some b := by
  obtain ⟨r, hr, -⟩ := Option.map_eq_some_iff.1 h
  have htag := List.find?_some hr
  have hmem : r ∈ rs := List.mem_reverse.1 (List.mem_of_find?_eq_some hr)
  have hsome : (rs.find? (·.tag = tag)).isSome := by
    rw [List.find?_isSome]
    exact ⟨r, hmem, htag⟩
  obtain ⟨r', hr'⟩ := Option.isSome_iff_exists.1 hsome
  exact ⟨r'.function, by rw [firstFunction?, hr']; rfl⟩

/-- **What a tag is bound to in a rebuilt registry.**  The rule map has the function of the last registration of a tag if and
only if that is the function that counts for it: of the first call that registers the tag by name, and without one of the
first registration. -/
theorem regenerated_binds_last_iff {names : List Text} (htree : parse existing = .ok tree)
    (hregistry : registry = (Registry.ofSource existing).withFunctions names)
    (h : registryRendering file (some existing) package additions registry required = .ok (.regenerated rebuilt))
    (hlast : lastFunction? (fileRegistrations existing tree) tag = some a) :
    (AreEntries (RegistryParts.rebuilt existing tree additions registry required).entries →
        DeclaresRuleMap rebuilt (RegistryParts.rebuilt existing tree additions registry required).entries) ∧
      (RebuiltBinds existing tree additions registry required tag a ↔ ∃ b ∈ countingFunction? existing tree tag, b.Same a) := by
  have hmap : registry.ruleMap = none := by
    simp only [registryRendering, htree] at h
    split at h
    · cases h
    · split at h
      · cases h
      · assumption
  refine ⟨fun hentries => ?_, ?_⟩
  · rw [regenerated_eq htree h]
    exact declaresRuleMap_registryText (parse_names htree).1 (isImportLine_of_mem_rebuilt htree) hentries
  obtain ⟨b, hb⟩ : ∃ b, countingFunction? existing tree tag = some b := by
    obtain ⟨b, hb⟩ := exists_firstFunction? hlast
    rw [countingFunction?, hb]
    cases firstName? existing tag <;> exact ⟨_, rfl⟩
  obtain ⟨hcoherent, hbinds⟩ := @gathered_binds existing tag tree additions registry names hregistry hmap
  have hbind := hbinds b hb
  have hsome : ((gathered existing tree additions registry).entries.lookup tag).isSome := by
    cases b with
    | named name => rw [hbind.1]; rfl
    | literal text =>
      obtain ⟨name, hname, -⟩ := hbind
      rw [hname]
      rfl
  rw [rebuiltBinds_iff hsome]
  constructor
  · exact fun ha => ⟨b, hb, hbind.same hcoherent ha⟩
  · rintro ⟨c, hc, hsame⟩
    exact (hbinds c hc).of_same hsame

/-! ### A tag that is registered twice -/

/-- A registry that registers a tag twice. -/
def twiceRegistered : Text :=
  "package types\n\nfunc init() \x7b\n\tvalidate.RegisterValidation(\"zip\", checkA)\n\tvalidate.RegisterValidation(\"zip\", checkB)\n\x7d\n\n" ++
  "func checkA(fl validator.FieldLevel) bool \x7b\n\treturn true\n\x7d\n\nfunc checkB(fl validator.FieldLevel) bool \x7b\n\treturn false\n\x7d\n"

def twiceTree : Tree :=
  ⟨⟨"types", ⟨0, 13⟩⟩, [], [⟨.function ⟨"init", none, some ⟨27, 118⟩⟩, ⟨15, 118⟩, 15⟩,
    ⟨.function ⟨"checkA", none, some ⟨162, 178⟩⟩, ⟨120, 178⟩, 120⟩, ⟨.function ⟨"checkB", none, some ⟨222, 239⟩⟩, ⟨180, 239⟩, 180⟩]⟩

/-- What is found in that registry. -/
def twiceState : Registry :=
  ⟨["checkA", "checkB", "init"], ["zip"], [("zip", "checkA"), ("zip", "checkB")], [⟨"zip", some "checkA"⟩, ⟨"zip", some "checkB"⟩],
    none, none⟩

lemma ofSource_twiceRegistered : Registry.ofSource twiceRegistered = twiceState := by
  unfold twiceRegistered
  repeat rw [String.toList_ofList]
  decide +kernel

/-- A tag is bound to the function by which it was registered first. -/
theorem regenerated_binds_first_of_two :
    ∃ additions rebuilt, additions = Additions.compute [] [] Requirements.seeded (Registry.ofSource twiceRegistered) ∧
      registryRendering "r.go" (some twiceRegistered) "types" additions (Registry.ofSource twiceRegistered) Requirements.seeded =
        .ok (.regenerated rebuilt) ∧
      lastFunction? (fileRegistrations twiceRegistered twiceTree) "zip" = some (.named "checkB") ∧
      ¬ RebuiltBinds twiceRegistered twiceTree additions (Registry.ofSource twiceRegistered) Requirements.seeded "zip"
        (.named "checkB") := by
  have htree : parse twiceRegistered = .ok twiceTree := by
    apply ok_of_toOption
    unfold twiceRegistered
    repeat rw [String.toList_ofList]
    decide +kernel
  obtain ⟨additions, hadditions⟩ : ∃ additions, additions =
      Additions.compute [] [] Requirements.seeded (Registry.ofSource twiceRegistered) := ⟨_, rfl⟩
  have hkeeps : additions.keepsRegistry = false := by
    rw [hadditions, ofSource_twiceRegistered]
    decide +kernel
  obtain ⟨rebuilt, hrebuilt⟩ : ∃ rebuilt, registryRendering "r.go" (some twiceRegistered) "types" additions
      (Registry.ofSource twiceRegistered) Requirements.seeded = .ok (.regenerated rebuilt) := by
    rw [registryRendering, htree, hkeeps, ofSource_twiceRegistered]
    exact ⟨_, rfl⟩
  have hlast : lastFunction? (fileRegistrations twiceRegistered twiceTree) "zip" = some (.named "checkB") := by
    unfold twiceRegistered
    repeat rw [String.toList_ofList]
    decide +kernel
  have hcounting : countingFunction? twiceRegistered twiceTree "zip" = some (.named "checkA") := by
    have hcalls : Detection.registrations twiceRegistered = twiceState.registrations :=
      congrArg Registry.registrations ofSource_twiceRegistered
    rw [countingFunction?, firstName?, hcalls]
    unfold twiceRegistered
    repeat rw [String.toList_ofList]
    rfl
  have hregistry : Registry.ofSource twiceRegistered = (Registry.ofSource twiceRegistered).withFunctions [] := by
    rw [ofSource_twiceRegistered]
    rfl
  obtain ⟨-, hbinds⟩ := regenerated_binds_last_iff htree hregistry hrebuilt hlast
  refine ⟨additions, rebuilt, hadditions, hrebuilt, hlast, fun hbound => ?_⟩
  obtain ⟨b, hb, hsame⟩ := hbinds.1 hbound
  rw [hcounting] at hb
  cases hb
  have hne : ("checkA".toList : Text) ≠ "checkB".toList := by decide
  exact hne hsame

end RuleWeaver
