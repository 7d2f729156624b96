import RuleWeaver.Proofs.Detection.Maps
import RuleWeaver.Proofs.Snippet
import RuleWeaver.Registry.Additions
import RuleWeaver.Registry.Rebuild

/-!
# Tags and the functions bound to them

A table has an entry for every key that was put there.  For a plain tag the bound function has a name that is found
again, and an entry is found under the tag itself.
-/

namespace RuleWeaver

open Source Text
open Detection (readName? isQualified readMapEntry? readRegistration? mem_findAll)

variable {t : Table} {k v x tag name rest s : Text} {c : Char} {e : Text × Text} {entries : List (Text × Text)}

/-! ### Tables -/

namespace Table

lemma lookup_cons_eq : ((k, v) :: t).lookup x = if x = k then some v else t.lookup x := by
  rw [List.lookup_cons]
  by_cases h : x = k
  · simp [h]
  · have hb : (x == k) = false := by simpa using h
    simp [hb, h]

lemma isSome_lookup_cons : (((k, v) :: t).lookup x).isSome ↔ x = k ∨ (t.lookup x).isSome := by
  rw [lookup_cons_eq]
  by_cases h : x = k <;> simp [h]

lemma isSome_lookup_putNew : ((putNew k v t).lookup x).isSome ↔ x = k ∨ (t.lookup x).isSome := by
  induction t with
  | nil => exact isSome_lookup_cons
  | cons e t ih =>
    obtain ⟨m, w⟩ := e
    unfold putNew
    split
    · next hk =>
      rw [isSome_lookup_cons, hk]
      tauto
    · split
      · exact isSome_lookup_cons
      · rw [isSome_lookup_cons, isSome_lookup_cons, ih]
        exact or_left_comm

lemma mem_of_mem_putNew (h : e ∈ putNew k v t) : e = (k, v) ∨ e ∈ t := by
  induction t with
  | nil => exact .inl (List.mem_singleton.1 h)
  | cons f t ih =>
    obtain ⟨m, w⟩ := f
    unfold putNew at h
    split at h
    · exact .inr h
    · split at h
      · exact List.mem_cons.1 h
      · rcases List.mem_cons.1 h with rfl | h
        · exact .inr List.mem_cons_self
        · exact (ih h).imp id (List.mem_cons_of_mem _)

/-- Whether the keys of a table are in ascending order, each once. -/
def IsSorted (t : Table) : Prop := t.Pairwise fun e f => e.1 ≠ f.1 ∧ Text.le e.1 f.1

lemma IsSorted.putNew (h : t.IsSorted) : (putNew k v t).IsSorted := by
  induction t with
  | nil => exact List.pairwise_singleton _ _
  | cons e t ih =>
    obtain ⟨m, w⟩ := e
    obtain ⟨hm, ht⟩ := List.pairwise_cons.1 h
    unfold Table.putNew
    split
    · exact h
    next hk =>
    split
    · next hle =>
      refine List.pairwise_cons.2 ⟨fun f hf => ?_, h⟩
      rcases List.mem_cons.1 hf with rfl | hf
      · exact ⟨hk, hle⟩
      · refine ⟨?_, Text.le_trans hle (hm f hf).2⟩
        rintro rfl
        exact (hm f hf).1 (Text.le_antisymm (hm f hf).2 hle)
    · next hle =>
      refine List.pairwise_cons.2 ⟨fun f hf => ?_, ih ht⟩
      rcases mem_of_mem_putNew hf with rfl | hf
      · exact ⟨Ne.symm hk, Text.le_total.resolve_left hle⟩
      · exact hm f hf

/-- In a table a key is bound to what it was bound to first. -/
lemma lookup_putNew (h : t.IsSorted) : (putNew k v t).lookup x = (t.lookup x).or (if x = k then some v else none) := by
  induction t with
  | nil =>
    rw [putNew, lookup_cons_eq]
    rfl
  | cons e t ih =>
    obtain ⟨m, w⟩ := e
    obtain ⟨hm, ht⟩ := List.pairwise_cons.1 h
    unfold putNew
    split
    · next hk =>
      rw [lookup_cons_eq]
      by_cases hx : x = m
      · simp [hx]
      · simp [hx, hk]
    next hk =>
    split
    · next hle =>
      have hnone : t.lookup k = none := by
        rw [List.lookup_eq_none_iff]
        intro f hf
        rw [bne_iff_ne]
        intro e
        exact (hm f hf).1 (Text.le_antisymm (hm f hf).2 (by rw [← e]; exact hle))
      rw [lookup_cons_eq, lookup_cons_eq]
      by_cases hx : x = k
      · subst hx
        simp [hk, hnone]
      · simp [hx]
    · rw [lookup_cons_eq, lookup_cons_eq, ih ht]
      split <;> rfl

lemma mem_iff_lookup (h : t.IsSorted) : (k, v) ∈ t ↔ t.lookup k = some v := by
  induction t with
  | nil => simp
  | cons e t ih =>
    obtain ⟨m, w⟩ := e
    obtain ⟨hm, ht⟩ := List.pairwise_cons.1 h
    rw [List.mem_cons, ih ht, List.lookup_cons]
    by_cases hk : k = m
    · subst hk
      have hnone : t.lookup k = none := by
        rw [List.lookup_eq_none_iff]
        intro f hf
        rw [bne_iff_ne]
        exact (hm f hf).1
      simp [hnone, eq_comm]
    · have hb : (k == m) = false := by simpa using hk
      simp [hk, hb]

variable {α : Type} {key value : α → Text} {xs : List α}

lemma IsSorted.foldl (h : t.IsSorted) : (xs.foldl (fun t a => Table.putNew (key a) (value a) t) t).IsSorted := by
  induction xs generalizing t with
  | nil => exact h
  | cons a xs ih => exact ih h.putNew

lemma lookup_foldl (h : t.IsSorted) : (xs.foldl (fun t a => putNew (key a) (value a) t) t).lookup x =
    (t.lookup x).or ((xs.map fun a => (key a, value a)).lookup x) := by
  induction xs generalizing t with
  | nil => simp
  | cons a xs ih =>
    rw [List.foldl_cons, ih h.putNew, lookup_putNew h, List.map_cons, lookup_cons_eq, Option.or_assoc]
    by_cases hx : x = key a <;> simp [hx]

lemma isSome_lookup_foldl (h : x ∈ xs.map key ∨ (t.lookup x).isSome) :
    ((xs.foldl (fun t a => putNew (key a) (value a) t) t).lookup x).isSome := by
  induction xs generalizing t with
  | nil => simpa using h
  | cons a xs ih =>
    rw [List.foldl_cons]
    refine ih ?_
    rw [isSome_lookup_putNew]
    rw [List.map_cons, List.mem_cons] at h
    tauto

end Table

/-! ### Tags -/

/-- Whether a tag consists of ASCII letters, digits, underscores and hyphens. -/
def isPlainTag (tag : Text) : Bool := !tag.isEmpty && tag.all fun c => c.isAlphanum || c = '_' || c = '-'

/-- Whether the characters are those of a plain tag. -/
abbrev isTagChar (c : Char) : Bool := c.isAlphanum || c = '_' || c = '-'

lemma quoteChar_of_isTagChar (h : isTagChar c) : quoteChar c = [c] := by
  unfold quoteChar
  split
  · exact absurd h (by decide)
  · exact absurd h (by decide)
  · exact absurd h (by decide)
  · exact absurd h (by decide)
  · rfl

lemma flatMap_quoteChar_of_isPlainTag (h : isPlainTag tag) : tag.flatMap quoteChar = tag := by
  rw [isPlainTag, Bool.and_eq_true] at h
  have hall : ∀ c ∈ tag, isTagChar c := List.all_eq_true.1 h.2
  clear h
  induction tag with
  | nil => rfl
  | cons c tag ih =>
    rw [List.flatMap_cons, quoteChar_of_isTagChar (hall c List.mem_cons_self),
      ih fun d hd => hall d (List.mem_cons_of_mem _ hd)]
    rfl

/-- A key that is written like a plain tag is that tag. -/
lemma flatMap_quoteChar_eq_iff (h : isPlainTag tag) : k.flatMap quoteChar = tag ↔ k = tag := by
  have htag := flatMap_quoteChar_of_isPlainTag h
  constructor
  · intro hk
    have := congrArg unescape hk
    rwa [unescape_flatMap_quoteChar, ← htag, unescape_flatMap_quoteChar] at this
  · rintro rfl
    exact htag

lemma newline_not_mem_of_isPlainTag (h : isPlainTag tag) : '\n' ∉ tag := by
  rw [isPlainTag, Bool.and_eq_true] at h
  exact fun hmem => absurd (List.all_eq_true.1 h.2 _ hmem) (by decide)

/-! ### Functions bound to tags -/

lemma toNat_lt_of_isTagChar (h : isTagChar c) : c.toNat < 128 := by
  rw [isTagChar, Bool.or_eq_true, Bool.or_eq_true, decide_eq_true_eq, decide_eq_true_eq] at h
  rcases h with (h | rfl) | rfl
  · exact Detection.toNat_lt_of_isAlphanum h
  · decide
  · decide

/-- The characters of a plain tag become word characters. -/
lemma isWord_nameChar (h : isTagChar c) :
    Unicode.isWord (Rule.nameChar c) ∧ (Unicode.toUpper (Rule.nameChar c)).all Unicode.isWord := by
  have key : ∀ n < 128, isTagChar (Char.ofNat n) → Unicode.isWord (Rule.nameChar (Char.ofNat n)) ∧
      (Unicode.toUpper (Rule.nameChar (Char.ofNat n))).all Unicode.isWord := by decide +kernel
  have := key c.toNat (toNat_lt_of_isTagChar h)
  rw [Char.ofNat_toNat] at this
  exact this h

/-- The function of a plain tag has a name of its own package. -/
lemma isLocalName_defaultFunction (h : isPlainTag tag) : Snippet.isLocalName (Rule.defaultFunction tag) := by
  unfold Rule.defaultFunction
  cases hs : Rule.seeded.lookup tag with
  | some name =>
    obtain ⟨l₁, l₂, hmem, -⟩ := List.lookup_eq_some_iff.1 hs
    have hseeded : ∀ e ∈ Rule.seeded, Snippet.isLocalName e.2 := by decide +kernel
    exact hseeded (tag, name) (by rw [hmem]; simp)
  | none =>
    rw [isPlainTag, Bool.and_eq_true] at h
    have hall : ∀ c ∈ tag, isTagChar c := List.all_eq_true.1 h.2
    rcases tag with _ | ⟨c, s⟩
    · cases h.1
    · have hlead : "validate".toList = 'v' :: "alidate".toList := by decide
      have hword : ("alidate".toList ++ Unicode.toUpper (Rule.nameChar c) ++ s.map Rule.nameChar).all Unicode.isWord := by
        rw [List.all_append, List.all_append, (isWord_nameChar (hall c List.mem_cons_self)).2, Bool.and_eq_true]
        refine ⟨by decide, List.all_eq_true.2 fun d hd => ?_⟩
        obtain ⟨d, hmem, rfl⟩ := List.mem_map.1 hd
        exact (isWord_nameChar (hall d (List.mem_cons_of_mem _ hmem))).1
      show Snippet.isLocalName ("validate".toList ++ Unicode.toUpper (Rule.nameChar c) ++ s.map Rule.nameChar)
      rw [hlead, List.cons_append, List.cons_append, Snippet.isLocalName, hword]
      rfl

lemma isFunctionName_of_isLocalName (h : Snippet.isLocalName name) : isFunctionName name := by
  rcases name with _ | ⟨c, s⟩
  · cases h
  · rw [Snippet.isLocalName, Bool.and_eq_true] at h
    rw [isFunctionName, h.1, Bool.true_and]
    exact List.all_eq_true.2 fun d hd => by rw [isQualified, List.all_eq_true.1 h.2 d hd, Bool.true_or]

/-- A function name without a dot is a name of its own package. -/
lemma isLocalName_of_isFunctionName (h : isFunctionName name) (hdot : '.' ∉ name) : Snippet.isLocalName name := by
  rcases name with _ | ⟨c, s⟩
  · cases h
  · rw [isFunctionName, Bool.and_eq_true] at h
    rw [Snippet.isLocalName, h.1, Bool.true_and]
    refine List.all_eq_true.2 fun d hd => ?_
    have hd' := List.all_eq_true.1 h.2 d hd
    rw [isQualified, Bool.or_eq_true, decide_eq_true_eq] at hd'
    refine hd'.resolve_right ?_
    rintro rfl
    exact hdot (List.mem_cons_of_mem _ hd)

lemma isFunctionName_of_mapEntry {b : Bool} {x : FoundEntry} (h : readMapEntry? b s = some (x, rest))
    (hx : x.value = some name) : isFunctionName name := by
  unfold readMapEntry? at h
  obtain ⟨u, -, h⟩ := Option.bind_eq_some_iff.1 h
  dsimp only at h
  split at h
  · obtain ⟨y, hy, -⟩ := Option.bind_eq_some_iff.1 h
    cases hy
  · obtain ⟨v, -, h⟩ := Option.bind_eq_some_iff.1 h
    cases e : readName? isQualified v with
    | none =>
      simp only [e] at h
      cases h
      cases hx
    | some p =>
      simp only [e] at h
      cases h
      cases hx
      exact isFunctionName_of_readName? e

lemma isFunctionName_of_registration {b : Bool} {x : RegistrationCall} (h : readRegistration? b s = some (x, rest))
    (hx : x.function = some name) : isFunctionName name := by
  unfold readRegistration? at h
  obtain ⟨u, -, h⟩ := Option.bind_eq_some_iff.1 h
  obtain ⟨p, -, h⟩ := Option.bind_eq_some_iff.1 h
  dsimp only at h
  obtain ⟨v, -, h⟩ := Option.bind_eq_some_iff.1 h
  split at h
  · next f w e =>
    obtain ⟨q, hq, e⟩ := Option.bind_eq_some_iff.1 e
    have hf : q.1 = f := by
      split at e
      · cases e
        rfl
      · cases e
        rfl
      · cases e
    cases h
    dsimp only at hx
    split at hx
    · cases hx
    · cases hx
      rw [← hf]
      exact isFunctionName_of_readName? hq
  · cases h
    cases hx

lemma Registry.isFunctionName_of_mem_bindings (h : e ∈ (Registry.ofSource s).bindings) : isFunctionName e.2 := by
  rcases List.mem_append.1 h with h | h
  · obtain ⟨x, hx, he⟩ := List.mem_filterMap.1 h
    obtain ⟨name, hname, rfl⟩ := Option.map_eq_some_iff.1 he
    cases hm : Detection.findMap? Detection.ruleMapHead s with
    | none =>
      rw [hm] at hx
      cases hx
    | some m =>
      rw [hm] at hx
      obtain ⟨b, u, rest, hread⟩ := mem_findAll hx
      exact isFunctionName_of_mapEntry hread hname
  · obtain ⟨x, hx, he⟩ := List.mem_filterMap.1 h
    obtain ⟨name, hname, rfl⟩ := Option.map_eq_some_iff.1 he
    obtain ⟨b, u, rest, hread⟩ := mem_findAll hx
    exact isFunctionName_of_registration hread hname

/-- The function of a plain tag has a name that is found again, wherever it comes from. -/
lemma Registry.isFunctionName_boundFunction {names : List Text} (h : isPlainTag tag) :
    isFunctionName (((Registry.ofSource s).withFunctions names).boundFunction tag) := by
  show isFunctionName (((Registry.ofSource s).bindings.lookup tag).getD (Rule.defaultFunction tag))
  cases hl : (Registry.ofSource s).bindings.lookup tag with
  | none => exact isFunctionName_of_isLocalName (isLocalName_defaultFunction h)
  | some name =>
    obtain ⟨l₁, l₂, hmem, -⟩ := List.lookup_eq_some_iff.1 hl
    exact Registry.isFunctionName_of_mem_bindings (e := (tag, name)) (by rw [hmem]; simp)

end RuleWeaver
