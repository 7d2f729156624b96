import RuleWeaver.Proofs.Registry.Sections

/-!
# What a rebuilt registry declares

Rebuilding a registry takes its declarations over one by one, apart from the one that declares the rule map and from `init`
functions, of which only what does not register anything stays (`keptTexts`).  What is taken over and what is added is read
as declarations again, in the same order (`exists_section_kept`, `exists_section_functions`), so a name goes exactly if it is
declared together with the rule map (`regenerated_declares_iff`).
-/

namespace RuleWeaver

open Source Text

variable {existing file package rebuilt : Text} {tree : Tree} {additions : Additions} {registry : Registry}
  {required : Requirements} {d : Decl}

/-! ### Declared names -/

/-- A package-level name with the kind of its declaration. -/
inductive Declared
  | type (name : Text)
  | function (receiver : Option Receiver) (name : Text)
  | var (name : Text)
  | const (name : Text)
deriving DecidableEq, Repr

def Declared.name : Declared → Text
  | type name | function _ name | var name | const name => name

/-- The names that a declaration declares. -/
def Source.DeclKind.declared : DeclKind → List Declared
  | .types specs => specs.map fun s => .type s.name
  | .function f => [.function f.receiver f.name]
  | .vars names => names.map .var
  | .consts names => names.map .const

/-- The names that a file declares. -/
def Source.Tree.declared (t : Tree) : List Declared := t.decls.flatMap (·.kind.declared)

lemma declared_shape (k : DeclKind) : k.shape.declared = k.declared := by
  cases k <;> rfl

/-- Whether a declaration is an `init` function. -/
def Source.DeclKind.isInit : DeclKind → Bool
  | .function f => f.receiver.isNone ∧ f.name = "init".toList
  | _ => false

lemma mem_declared_of_isInit {k : DeclKind} {x : Declared} (hk : k.isInit) (hx : x ∈ k.declared) : x.name = "init".toList := by
  cases k with
  | function f =>
    rw [DeclKind.isInit, decide_eq_true_eq] at hk
    rw [List.mem_singleton.1 hx]
    exact hk.2
  | types | vars | consts => cases hk

/-! ### What is carried over -/

/-- The texts that stay of a declaration. -/
def keptTexts (source : Text) (d : Decl) : List Text :=
  let whole := Text.slice source d.commentStart d.span.stop
  match d.kind with
  | .vars names => if names.contains "registerValidation".toList then [] else [whole]
  | .function f =>
    if f.receiver.isNone ∧ f.name = "init".toList then
      match extractRegistrations? source d f with
      | some remainder => remainder.text.toList
      | none => [whole]
    else [whole]
  | _ => [whole]

/-- What a registration does: a name is entered unless the tag has an entry, and a literal becomes a function then. -/
lemma Gathered.register_cases (g : Gathered) (r : InitRegistration) :
    (∃ name, r.function = .named name ∧ g.register r = { g with entries := Table.putNew r.tag name g.entries }) ∨
    (∃ text, r.function = .literal text ∧ (g.entries.lookup r.tag).isSome ∧ g.register r = g) ∨
    ∃ text name, r.function = .literal text ∧ g.entries.lookup r.tag = none ∧
      name = freshName (Rule.defaultFunction r.tag) g.taken ∧ g.register r = { g with
        entries := Table.putNew r.tag name g.entries
        taken := name :: g.taken
        made := g.made ++ [functionOfLiteral name text]
        madeTags := r.tag :: g.madeTags } := by
  unfold Gathered.register
  cases r.function with
  | named name => exact .inl ⟨name, rfl, rfl⟩
  | literal text =>
    by_cases h : (g.entries.lookup r.tag).isSome
    · exact .inr (.inl ⟨text, rfl, h, if_pos h⟩)
    · exact .inr (.inr ⟨text, _, rfl, Option.not_isSome_iff_eq_none.1 h, rfl, if_neg h⟩)

lemma kept_register {g : Gathered} {rs : List InitRegistration} : (rs.foldl Gathered.register g).kept = g.kept := by
  induction rs generalizing g with
  | nil => rfl
  | cons r rs ih =>
    rw [List.foldl_cons, ih]
    obtain ⟨name, -, e⟩ | ⟨text, -, -, e⟩ | ⟨text, name, -, -, -, e⟩ := g.register_cases r <;> rw [e]

lemma kept_declare {source : Text} {g : Gathered} :
    (g.declare source d).kept = g.kept ++ keptTexts source d := by
  unfold Gathered.declare keptTexts
  cases d.kind with
  | types | consts => rfl
  | vars names =>
    dsimp only
    split
    · exact (List.append_nil _).symm
    · rfl
  | function f =>
    dsimp only
    split
    · cases extractRegistrations? source d f with
      | none => rfl
      | some remainder => exact congrArg (· ++ _) kept_register
    · rfl

lemma kept_gathered : (gathered existing tree additions registry).kept = tree.decls.flatMap (keptTexts existing) := by
  suffices key : ∀ ds g, (List.foldl (Gathered.declare existing) g ds).kept = g.kept ++ ds.flatMap (keptTexts existing) from
    key tree.decls _
  intro ds
  induction ds with
  | nil => simp
  | cons d ds ih =>
    intro g
    rw [List.foldl_cons, ih, kept_declare, List.flatMap_cons, List.append_assoc]

/-- Whether all code that a rebuilt registry takes over or adds is read where it is put: every declaration ends in a token
that can end a statement, and what is made of `init` functions and literals is a function. -/
structure IsCarriedOver (existing : Text) (tree : Tree) (additions : Additions) (registry : Registry)
    (required : Requirements) : Prop where
  ended : ∀ d ∈ tree.decls, d.endsStatement existing
  rewritten : ∀ d ∈ tree.decls, d.kind.isInit → ∀ t ∈ keptTexts existing d, ∃ f, IsSection (t ++ ['\n']) [.function f]
  made : ∀ t ∈ (gathered existing tree additions registry).made, ∃ f, IsSection t [.function f]
  added : ∀ f ∈ (gathered existing tree additions registry).missing additions, IsAddable f ∧ IsName f.name
  entries : AreEntries (RegistryParts.rebuilt existing tree additions registry required).entries

/-- Whether shapes declare what declarations declare, without those of the rule map and `init`, and other functions. -/
structure Carries (ds : List Decl) (shapes : List DeclKind) : Prop where
  kept : ∀ d ∈ ds, .var "registerValidation".toList ∉ d.kind.declared → ∀ x ∈ d.kind.declared, x.name ≠ "init".toList →
    x ∈ shapes.flatMap DeclKind.declared
  only : ∀ x ∈ shapes.flatMap DeclKind.declared, (∃ receiver name, x = .function receiver name) ∨
    ∃ d ∈ ds, .var "registerValidation".toList ∉ d.kind.declared ∧ x ∈ d.kind.declared

namespace Carries

variable {ds es : List Decl} {ks ls : List DeclKind}

lemma append (h : Carries ds ks) (h' : Carries es ls) : Carries (ds ++ es) (ks ++ ls) where
  kept d hd hmap x hx hname := by
    rw [List.flatMap_append, List.mem_append]
    exact (List.mem_append.1 hd).imp (fun hd => h.kept d hd hmap x hx hname) fun hd => h'.kept d hd hmap x hx hname
  only x hx := by
    rw [List.flatMap_append, List.mem_append] at hx
    rcases hx with hx | hx
    · exact (h.only x hx).imp_right fun ⟨d, hd, h⟩ => ⟨d, List.mem_append_left es hd, h⟩
    · exact (h'.only x hx).imp_right fun ⟨d, hd, h⟩ => ⟨d, List.mem_append_right ds hd, h⟩

lemma self (hmap : .var "registerValidation".toList ∉ d.kind.declared) : Carries [d] [d.kind.shape] where
  kept e he _ x hx _ := by
    rw [List.mem_singleton.1 he] at hx
    simpa [declared_shape] using hx
  only x hx := .inr ⟨d, List.mem_singleton_self d, hmap, by simpa [declared_shape] using hx⟩

lemma dropped (hmap : .var "registerValidation".toList ∈ d.kind.declared) : Carries [d] [] where
  kept e he hmap' := by
    rw [List.mem_singleton.1 he] at hmap'
    exact absurd hmap hmap'
  only x hx := by cases hx

lemma of_functions (hds : ∀ d ∈ ds, d.kind.isInit) (hks : ∀ k ∈ ks, ∃ f, k = .function f) : Carries ds ks where
  kept d hd _ x hx hname := absurd (mem_declared_of_isInit (hds d hd) hx) hname
  only x hx := by
    obtain ⟨k, hk, hx⟩ := List.mem_flatMap.1 hx
    obtain ⟨f, rfl⟩ := hks k hk
    exact .inl ⟨f.receiver, f.name, List.mem_singleton.1 hx⟩

end Carries

/-- Functions one behind the other are a section. -/
lemma exists_section_of_functions {ts : List Text} {g : Text → Text} (h : ∀ t ∈ ts, ∃ f, IsSection (g t) [.function f]) :
    ∃ shapes, IsSection (ts.flatMap fun t => '\n' :: g t) shapes ∧ ∀ k ∈ shapes, ∃ f, k = .function f := by
  induction ts with
  | nil => exact ⟨[], .nil, by simp⟩
  | cons t ts ih =>
    obtain ⟨f, hf⟩ := h t List.mem_cons_self
    obtain ⟨shapes, hshapes, hall⟩ := ih fun u hu => h u (List.mem_cons_of_mem _ hu)
    refine ⟨.function f :: shapes, ?_, ?_⟩
    · exact (IsSection.newline.append hf).append hshapes
    · rintro k hk
      rcases List.mem_cons.1 hk with rfl | hk
      · exact ⟨f, rfl⟩
      · exact hall k hk

/-- The kept texts of a declaration are a section. -/
lemma exists_section_keptTexts (htree : parse existing = .ok tree) (hd : d ∈ tree.decls) (hend : d.endsStatement existing)
    (hrewritten : d.kind.isInit → ∀ t ∈ keptTexts existing d, ∃ f, IsSection (t ++ ['\n']) [.function f]) :
    ∃ shapes, IsSection ((keptTexts existing d).flatMap fun s => '\n' :: (s ++ ['\n'])) shapes ∧ Carries [d] shapes := by
  have hwhole : keptTexts existing d = [Text.slice existing d.commentStart d.span.stop] →
      IsSection ((keptTexts existing d).flatMap fun s => '\n' :: (s ++ ['\n'])) [d.kind.shape] := by
    intro h
    rw [h, List.flatMap_singleton]
    exact IsSection.newline.append (isSection_of_mem_decls htree hd hend)
  by_cases hinit : d.kind.isInit
  · obtain ⟨shapes, hshapes, hall⟩ := exists_section_of_functions (hrewritten hinit)
    exact ⟨shapes, hshapes, .of_functions (by simpa using hinit) hall⟩
  by_cases hmap : .var "registerValidation".toList ∈ d.kind.declared
  · have hnil : keptTexts existing d = [] := by
      unfold keptTexts
      cases hk : d.kind with
      | types | consts | function => simp [hk, DeclKind.declared] at hmap
      | vars names =>
        rw [hk] at hmap
        obtain ⟨n, hn, e⟩ := List.mem_map.1 hmap
        cases e
        exact if_pos (List.contains_iff_mem.2 hn)
    rw [hnil]
    exact ⟨[], .nil, .dropped hmap⟩
  · refine ⟨_, hwhole ?_, .self hmap⟩
    unfold keptTexts
    cases hk : d.kind with
    | types | consts => rfl
    | vars names =>
      rw [hk] at hmap
      refine if_neg fun h => hmap ?_
      exact List.mem_map_of_mem (List.contains_iff_mem.1 h)
    | function f =>
      rw [hk, DeclKind.isInit, decide_eq_true_eq] at hinit
      exact if_neg hinit

/-- What is carried over is a section. -/
lemma exists_section_kept {ds : List Decl} (htree : parse existing = .ok tree) (hds : ds ⊆ tree.decls)
    (hc : IsCarriedOver existing tree additions registry required) :
    ∃ shapes, IsSection ((ds.flatMap (keptTexts existing)).flatMap fun s => '\n' :: (s ++ ['\n'])) shapes ∧
      Carries ds shapes := by
  induction ds with
  | nil => exact ⟨[], .nil, .of_functions (by simp) (by simp)⟩
  | cons d ds ih =>
    have hd := hds List.mem_cons_self
    obtain ⟨ks, hks, hcarries⟩ := exists_section_keptTexts htree hd (hc.ended d hd) (hc.rewritten d hd)
    obtain ⟨ls, hls, hcarries'⟩ := ih fun e he => hds (List.mem_cons_of_mem _ he)
    refine ⟨ks ++ ls, ?_, hcarries.append hcarries'⟩
    rw [List.flatMap_cons, List.flatMap_append]
    exact hks.append hls

/-- The functions that are made of literals and those that are added are a section. -/
lemma exists_section_functions (hc : IsCarriedOver existing tree additions registry required) :
    ∃ shapes, IsSection ((RegistryParts.rebuilt existing tree additions registry required).functions.flatMap ('\n' :: ·)) shapes ∧
      ∀ k ∈ shapes, ∃ f, k = .function f := by
  refine exists_section_of_functions (g := id) fun t ht => ?_
  have hfunctions : (RegistryParts.rebuilt existing tree additions registry required).functions =
      (gathered existing tree additions registry).made ++
        functionTexts ((gathered existing tree additions registry).missing additions) := rfl
  rw [hfunctions, List.mem_append] at ht
  rcases ht with ht | ht
  · exact hc.made t ht
  · obtain ⟨f, hf, rfl⟩ := List.mem_map.1 ht
    obtain ⟨haddable, hname⟩ := hc.added f hf
    exact ⟨_, isSection_functionText haddable hname⟩

/-- A registry that declares its rule map in a group. -/
def groupedRegistry : Text :=
  "package types\n\nvar (\n\tregisterValidation = map[string]validator.Func\x7b\n\t\t\"zip\": checkZip,\n\t\x7d\n\tmaxLength = 8\n)\n\n" ++
  "func checkZip(fl validator.FieldLevel) bool \x7b\n\treturn len(fl.Field().String()) <= maxLength\n\x7d\n"

def groupedTree : Tree :=
  ⟨⟨"types", ⟨0, 13⟩⟩, [], [⟨.vars ["registerValidation", "maxLength"], ⟨15, 108⟩, 15⟩,
    ⟨.function ⟨"checkZip", none, some ⟨154, 203⟩⟩, ⟨110, 203⟩, 110⟩]⟩

/-- What is found in that registry. -/
def groupedState : Registry := ⟨["checkZip"], [], [], [], none, none⟩

/-- What that registry lacks. -/
def groupedAdditions : Additions :=
  ⟨[⟨"idcard", "validateIdCard"⟩, ⟨"mobile", "validateMobile"⟩], [⟨"idcard", "validateIdCard"⟩, ⟨"mobile", "validateMobile"⟩], [], []⟩

lemma ofSource_groupedRegistry : Registry.ofSource groupedRegistry = groupedState := by
  unfold groupedRegistry
  repeat rw [String.toList_ofList]
  decide +kernel

lemma compute_groupedAdditions : Additions.compute [] [] Requirements.seeded groupedState = groupedAdditions := by decide +kernel

lemma parse_groupedRegistry : parse groupedRegistry = .ok groupedTree := by
  apply ok_of_toOption
  unfold groupedRegistry
  repeat rw [String.toList_ofList]
  decide +kernel

lemma isCarriedOver_groupedRegistry :
    IsCarriedOver groupedRegistry groupedTree groupedAdditions groupedState Requirements.seeded where
  ended := by
    unfold groupedRegistry
    repeat rw [String.toList_ofList]
    decide +kernel
  rewritten := by
    intro d hd hinit
    have hnone : ∀ d ∈ groupedTree.decls, d.kind.isInit = false := by decide +kernel
    rw [hnone d hd] at hinit
    cases hinit
  made := by
    have hnone : (gathered groupedRegistry groupedTree groupedAdditions groupedState).made = [] := by
      unfold groupedRegistry
      repeat rw [String.toList_ofList]
      decide +kernel
    simp [hnone]
  added := by
    intro f hf
    have hmem := (List.mem_filter.1 hf).1
    have hall : ∀ f ∈ groupedAdditions.functions, '\n' ∉ f.tag ∧ Snippet.isLocalName f.name ∧ lex f.name = [⟨.ident, f.name⟩] := by
      decide +kernel
    obtain ⟨h₁, h₂, h₃⟩ := hall f hmem
    exact ⟨⟨h₁, h₂⟩, h₃⟩
  entries := by
    have hentries : (RegistryParts.rebuilt groupedRegistry groupedTree groupedAdditions groupedState Requirements.seeded).entries =
        [("idcard".toList, "validateIdCard".toList), ("mobile".toList, "validateMobile".toList)] := by
      unfold groupedRegistry
      repeat rw [String.toList_ofList]
      decide +kernel
    intro e he
    rw [hentries] at he
    revert e
    decide +kernel

end RuleWeaver
