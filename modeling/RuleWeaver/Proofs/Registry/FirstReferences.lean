import RuleWeaver.Proofs.Registry.Requirements

/-!
# First references

Requirements are collected one reference at a time: a tag that is new gets a rule, a seeded rule is marked when it is first
referred to, and a later reference can only be a conflict.  What comes out is told here by the references as a whole
(`Matches`): of the references to a tag the first one counts, and those that disagree with it are the conflicts
(`collect_eq_iff_matches`).
-/

namespace RuleWeaver.Requirements

open Text (IsAscending)

variable {seen references : List (Text × Rule)} {o : Text × Rule} {rs : Requirements} {tag type : Text} {rule : Rule}
  {r x : Requirement} {rules : List Requirement}

/-! ### References as a whole -/

/-- The custom rules that fields list, each with the type of the field, in the order of candidates, fields and rules. -/
def referencesOf (candidates : List Candidate) : List (Text × Rule) :=
  candidates.flatMap fun c => c.fields.flatMap fun f => (f.rules.filter (·.isCustom)).map fun rule => (c.name, rule)

lemma occurrences_eq (candidates : List Candidate) : occurrences candidates = referencesOf candidates := by
  unfold occurrences referencesOf Candidate.rules
  refine List.flatMap_congr fun c _ => ?_
  rw [List.filter_flatMap, List.map_flatMap]

/-- The parameters of the first reference to a tag; none where there is no reference. -/
def firstParams (seen : List (Text × Rule)) (tag : Text) : Option (List Text) :=
  (seen.find? fun o => o.2.tag = tag).bind (·.2.params)

/-- The references whose parameters are not those of the first reference to their tag. -/
def conflictsOf (seen : List (Text × Rule)) : List Conflict :=
  (seen.filter fun o => o.2.params ≠ firstParams seen o.2.tag).map fun o =>
    ⟨o.2.tag, firstParams seen o.2.tag, o.2.params, o.1⟩

/-- Whether requirements are what references amount to. -/
structure Matches (rs : Requirements) (seen : List (Text × Rule)) : Prop where
  ascending : IsAscending rs.tags
  mem_tags : ∀ tag, tag ∈ rs.tags ↔ tag ∈ Rule.seeded.map (·.1) ∨ ∃ o ∈ seen, o.2.tag = tag
  params : ∀ r ∈ rs.rules, r.params = firstParams seen r.tag
  referenced : ∀ r ∈ rs.rules, r.referenced ↔ ∃ o ∈ seen, o.2.tag = r.tag
  functions : ∀ r ∈ rs.rules, r.function = (Rule.seeded.lookup r.tag).getD (Rule.defaultFunction r.tag)
  conflicts : rs.conflicts = conflictsOf seen

/-! ### One more reference -/

lemma firstParams_append_of_mem (h : ∃ o ∈ seen, o.2.tag = tag) : firstParams (seen ++ [o]) tag = firstParams seen tag := by
  have hsome : (seen.find? fun o => o.2.tag = tag).isSome := by
    rw [List.find?_isSome]
    obtain ⟨o, ho, htag⟩ := h
    exact ⟨o, ho, decide_eq_true htag⟩
  rw [firstParams, firstParams, List.find?_append, Option.or_of_isSome hsome]

lemma firstParams_append_of_ne (h : o.2.tag ≠ tag) : firstParams (seen ++ [o]) tag = firstParams seen tag := by
  have hnone : [o].find? (fun o => o.2.tag = tag) = none := by simp [h]
  rw [firstParams, firstParams, List.find?_append, hnone, Option.or_none]

/-- A first reference is the one that counts. -/
lemma firstParams_append_of_forall_ne (h : ∀ p ∈ seen, p.2.tag ≠ o.2.tag) : firstParams (seen ++ [o]) o.2.tag = o.2.params := by
  have hnone : (seen.find? fun p => p.2.tag = o.2.tag) = none := by
    rw [List.find?_eq_none]
    exact fun p hp => by simpa using h p hp
  rw [firstParams, List.find?_append, hnone, Option.none_or]
  simp

/-- A reference conflicts with those in front of it only. -/
lemma conflictsOf_append : conflictsOf (seen ++ [o]) = conflictsOf seen ++
    if o.2.params = firstParams (seen ++ [o]) o.2.tag then []
    else [⟨o.2.tag, firstParams (seen ++ [o]) o.2.tag, o.2.params, o.1⟩] := by
  have hfirst : ∀ p ∈ seen, firstParams (seen ++ [o]) p.2.tag = firstParams seen p.2.tag := fun p hp =>
    firstParams_append_of_mem ⟨p, hp, rfl⟩
  have hseen : (seen.filter fun p => p.2.params ≠ firstParams (seen ++ [o]) p.2.tag) =
      seen.filter fun p => p.2.params ≠ firstParams seen p.2.tag :=
    List.filter_congr fun p hp => by rw [hfirst p hp]
  rw [conflictsOf, List.filter_append, List.map_append, hseen]
  congr 1
  · refine List.map_congr_left fun p hp => ?_
    rw [hfirst p (List.mem_filter.1 hp).1]
  · by_cases h : o.2.params = firstParams (seen ++ [o]) o.2.tag
    · rw [if_pos h, List.filter_cons_of_neg (by simpa using h)]
      rfl
    · rw [if_neg h, List.filter_cons_of_pos (by simpa using h)]
      rfl

/-! ### One more rule -/

lemma get?_eq_none_iff : rs.get? tag = none ↔ tag ∉ rs.tags := by
  simp [get?, tags, List.find?_eq_none]

/-- What is put in takes the place of the rule with its tag. -/
lemma mem_put (h : IsAscending (rules.map (·.tag))) : x ∈ put r rules ↔ x = r ∨ x ∈ rules ∧ x.tag ≠ r.tag := by
  induction rules with
  | nil => simp [put]
  | cons y rules ih =>
    obtain ⟨hy, hrules⟩ := List.pairwise_cons.1 h
    have hbehind : ∀ z ∈ rules, Text.le y.tag z.tag ∧ y.tag ≠ z.tag := fun z hz => hy z.tag (List.mem_map_of_mem hz)
    rw [put]
    split
    · next heq =>
      have hne : ∀ z ∈ rules, z.tag ≠ r.tag := fun z hz e => (hbehind z hz).2 (heq.symm.trans e.symm)
      rw [List.mem_cons, List.mem_cons]
      refine or_congr_right ⟨fun hx => ⟨.inr hx, hne x hx⟩, ?_⟩
      rintro ⟨rfl | hx, hxr⟩
      · exact absurd heq.symm hxr
      · exact hx
    next hne =>
    split
    · next hle =>
      have hother : ∀ z ∈ y :: rules, z.tag ≠ r.tag := by
        rintro z hz e
        rcases List.mem_cons.1 hz with rfl | hz
        · exact hne e.symm
        · obtain ⟨hyz, -⟩ := hbehind z hz
          exact hne (Text.le_antisymm hle (e ▸ hyz))
      rw [List.mem_cons]
      exact or_congr_right ⟨fun hx => ⟨hx, hother x hx⟩, And.left⟩
    · rw [List.mem_cons, ih hrules, List.mem_cons]
      constructor
      · rintro (rfl | rfl | ⟨hx, hxr⟩)
        · exact .inr ⟨.inl rfl, Ne.symm hne⟩
        · exact .inl rfl
        · exact .inr ⟨.inr hx, hxr⟩
      · rintro (rfl | ⟨rfl | hx, hxr⟩)
        · exact .inr (.inl rfl)
        · exact .inl rfl
        · exact .inr (.inr ⟨hx, hxr⟩)

/-! ### One reference, and all of them -/

namespace Matches

/-- What a reference to another tag does not change. -/
lemma rule_append (h : rs.Matches seen) (hr : r ∈ rs.rules) (hne : o.2.tag ≠ r.tag) :
    r.params = firstParams (seen ++ [o]) r.tag ∧ (r.referenced ↔ ∃ p ∈ seen ++ [o], p.2.tag = r.tag) := by
  refine ⟨(h.params r hr).trans (firstParams_append_of_ne hne).symm, (h.referenced r hr).trans ?_⟩
  simp [hne]

/-- A rule for the tag of a first reference is put in. -/
lemma putFirst (h : rs.Matches seen) (hfirst : ∀ p ∈ seen, p.2.tag ≠ o.2.tag) (htag : r.tag = o.2.tag) (hparams : r.params = o.2.params)
    (hreferenced : r.referenced) (hfunction : r.function = (Rule.seeded.lookup r.tag).getD (Rule.defaultFunction r.tag)) :
    Matches { rs with rules := put r rs.rules } (seen ++ [o]) := by
  have htags : Requirements.tags { rs with rules := put r rs.rules } = Text.insert r.tag rs.tags := map_tag_put
  have hmem := fun x => mem_put (x := x) (r := r) h.ascending
  have hfirstParams := firstParams_append_of_forall_ne hfirst
  refine ⟨htags ▸ h.ascending.insert, fun tag => ?_, fun x hx => ?_, fun x hx => ?_, fun x hx => ?_, ?_⟩
  · rw [htags, Text.mem_insert, h.mem_tags, htag]
    simp only [List.mem_append, List.mem_singleton, or_and_right, exists_or, exists_eq_left, eq_comm (a := tag)]
    exact or_comm.trans or_assoc
  · rcases (hmem x).1 hx with rfl | ⟨hx, hne⟩
    · rw [htag, hfirstParams, hparams]
    · exact (h.rule_append hx (htag ▸ Ne.symm hne)).1
  · rcases (hmem x).1 hx with rfl | ⟨hx, hne⟩
    · exact iff_of_true hreferenced ⟨o, by simp, htag.symm⟩
    · exact (h.rule_append hx (htag ▸ Ne.symm hne)).2
  · rcases (hmem x).1 hx with rfl | ⟨hx, -⟩
    · exact hfunction
    · exact h.functions x hx
  · rw [conflictsOf_append, if_pos hfirstParams.symm, List.append_nil]
    exact h.conflicts

/-- **One reference.** -/
theorem note (h : rs.Matches seen) (type : Text) (rule : Rule) : (rs.note type rule).Matches (seen ++ [(type, rule)]) := by
  unfold Requirements.note
  split
  · next hnone =>
    -- the tag is neither seeded nor referred to
    have hnew := mt (h.mem_tags rule.tag).2 (get?_eq_none_iff.1 hnone)
    rw [not_or] at hnew
    have hseeded : Rule.seeded.lookup rule.tag = none := by
      rw [List.lookup_eq_none_iff]
      intro e he
      rw [bne_iff_ne]
      exact fun heq => hnew.1 (List.mem_map.2 ⟨e, he, heq.symm⟩)
    refine h.putFirst (fun p hp heq => hnew.2 ⟨p, hp, heq⟩) rfl rfl rfl ?_
    rw [hseeded]
    rfl
  next old hold =>
  have hmem : old ∈ rs.rules := List.mem_of_find?_eq_some hold
  have htag : old.tag = rule.tag := tag_of_get? hold
  have hreferenced := h.referenced old hmem
  rw [htag] at hreferenced
  split
  · next hseeded =>
    -- the rule is seeded, and this is the first reference to it
    have hfirst : ∀ p ∈ seen, p.2.tag ≠ rule.tag := fun p hp heq => by
      rw [hreferenced.2 ⟨p, hp, heq⟩] at hseeded
      cases hseeded
    exact h.putFirst hfirst htag rfl rfl (h.functions old hmem)
  next hlater =>
  have hseen : ∃ p ∈ seen, p.2.tag = rule.tag := hreferenced.1 (by simpa using hlater)
  have hfirstParams : firstParams (seen ++ [(type, rule)]) rule.tag = old.params := by
    rw [firstParams_append_of_mem hseen, h.params old hmem, htag]
  -- a later reference leaves the rules as they are
  have hkept : ∀ conflicts, conflicts = conflictsOf (seen ++ [(type, rule)]) → Matches ⟨rs.rules, conflicts⟩ (seen ++ [(type, rule)]) := by
    refine fun conflicts hconflicts => ⟨h.ascending, fun tag => ?_, fun x hx => ?_, fun x hx => ?_, h.functions, hconflicts⟩
    · refine (h.mem_tags tag).trans (or_congr_right ?_)
      simp only [List.mem_append, List.mem_singleton, or_and_right, exists_or, exists_eq_left]
      exact ⟨.inl, fun hx => hx.elim id fun e => e ▸ hseen⟩
    · rw [h.params x hx]
      by_cases hx' : rule.tag = x.tag
      · rw [← hx', firstParams_append_of_mem hseen]
      · rw [firstParams_append_of_ne hx']
    · by_cases hx' : rule.tag = x.tag
      · refine (h.referenced x hx).trans (iff_of_true (hx' ▸ hseen) ⟨(type, rule), by simp, hx'⟩)
      · exact (h.rule_append hx hx').2
  split
  · next hsame =>
    refine hkept rs.conflicts ?_
    rw [conflictsOf_append, hfirstParams, if_pos hsame.symm, List.append_nil]
    exact h.conflicts
  · next hother =>
    refine hkept _ ?_
    rw [conflictsOf_append, hfirstParams, if_neg (Ne.symm hother), h.conflicts]

/-- **References one after the other.** -/
theorem foldl_note (h : rs.Matches seen) :
    (references.foldl (fun rs (type, rule) => rs.note type rule) rs).Matches (seen ++ references) := by
  induction references generalizing rs seen with
  | nil => rwa [List.append_nil]
  | cons o references ih =>
    have hnext := ih (h.note o.1 o.2)
    rwa [List.append_assoc] at hnext

end Matches

/-- The rule that a tag has. -/
def ruleOf (seen : List (Text × Rule)) (tag : Text) : Requirement :=
  ⟨tag, (Rule.seeded.lookup tag).getD (Rule.defaultFunction tag), firstParams seen tag, seen.any fun o => o.2.tag = tag⟩

lemma Matches.rules_eq (h : rs.Matches seen) : rs.rules = rs.tags.map (ruleOf seen) := by
  rw [tags, List.map_map]
  refine (List.map_id _).symm.trans (List.map_congr_left fun r hr => ?_)
  have hreferenced : r.referenced = seen.any fun o => o.2.tag = r.tag := by
    rw [Bool.eq_iff_iff, h.referenced r hr, List.any_eq_true]
    simp only [decide_eq_true_eq]
  rw [Function.comp_apply, ruleOf, ← h.params r hr, ← h.functions r hr, ← hreferenced]
  rfl

/-- References amount to one thing only. -/
lemma Matches.unique {rs' : Requirements} (h : rs.Matches seen) (h' : rs'.Matches seen) : rs = rs' := by
  have htags : rs.tags = rs'.tags := h.ascending.ext h'.ascending fun tag => (h.mem_tags tag).trans (h'.mem_tags tag).symm
  have hrules : rs.rules = rs'.rules := by rw [h.rules_eq, h'.rules_eq, htags]
  have hconflicts : rs.conflicts = rs'.conflicts := h.conflicts.trans h'.conflicts.symm
  obtain ⟨rules, conflicts⟩ := rs
  exact congr (congrArg Requirements.mk hrules) hconflicts

/-! ### What is collected -/

lemma matches_seeded : seeded.Matches [] := by
  refine ⟨isAscending_seeded, fun tag => by simp [seeded, tags], ?_, ?_, ?_, rfl⟩
  all_goals decide

lemma matches_collect (candidates : List Candidate) : (collect candidates true).Matches (referencesOf candidates) := by
  rw [collect, if_pos rfl, occurrences_eq]
  exact matches_seeded.foldl_note

/-- **Of the references to a tag the first one counts.**  With custom rules the requirements are what the references of the
candidates amount to, without them what no reference amounts to: the seeded rules, not referred to. -/
theorem collect_eq_iff_matches (candidates : List Candidate) (rs : Requirements) :
    (collect candidates true = rs ↔ rs.Matches (referencesOf candidates)) ∧ (collect candidates false = rs ↔ rs.Matches []) := by
  refine ⟨⟨?_, (matches_collect candidates).unique⟩, ?_, matches_seeded.unique⟩
  · rintro rfl
    exact matches_collect candidates
  · rintro rfl
    exact matches_seeded

end RuleWeaver.Requirements
