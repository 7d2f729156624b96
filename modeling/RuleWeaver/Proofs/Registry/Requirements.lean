import RuleWeaver.Proofs.Detection.Keys
import RuleWeaver.Registry.Additions

/-!
# Required tags

The rules that a registry must contain stand in ascending order of their tags.  Their tags are the seeded ones and the custom
tags that candidates refer to (`mem_tags_collect`); parameters and conflicts have no influence on them.
-/

namespace RuleWeaver.Requirements

open Text (IsAscending)

variable {candidates : List Candidate} {custom : Bool} {rs : Requirements} {tag type : Text} {rule : Rule} {r : Requirement}
  {rules : List Requirement}

/-- The tags of the rules, in order. -/
def tags (rs : Requirements) : List Text := rs.rules.map (·.tag)

lemma map_tag_put : (put r rules).map (·.tag) = Text.insert r.tag (rules.map (·.tag)) := by
  induction rules with
  | nil => rfl
  | cons x rules ih =>
    rw [put, List.map_cons, Text.insert]
    split
    · next h => rw [List.map_cons, h]
    · split
      · rfl
      · rw [List.map_cons, ih]

/-- A rule that is found has the tag it is looked for by. -/
lemma tag_of_get? (h : rs.get? tag = some r) : r.tag = tag := by
  have hfound := List.find?_some h
  exact of_decide_eq_true hfound

lemma tag_mem_of_get? (h : rs.get? tag = some r) : tag ∈ rs.tags := by
  rw [← tag_of_get? h]
  exact List.mem_map_of_mem (List.mem_of_find?_eq_some h)

/-- **One reference.**  The tag is put in, if it is not there. -/
lemma tags_note (h : IsAscending rs.tags) : (rs.note type rule).tags = Text.insert rule.tag rs.tags := by
  unfold note
  split
  · exact map_tag_put
  · next old hold =>
    have hmem := tag_mem_of_get? hold
    have hsame : rs.tags = Text.insert rule.tag rs.tags := by
      refine h.ext h.insert fun x => ?_
      rw [Text.mem_insert]
      exact ⟨.inr, fun hx => hx.elim (fun e => e ▸ hmem) id⟩
    split
    · rw [← tag_of_get? hold]
      exact map_tag_put
    · split
      · exact hsame
      · exact hsame

/-- References one after the other: their tags are put in. -/
lemma isAscending_foldl_note {references : List (Text × Rule)} (h : IsAscending rs.tags) :
    IsAscending (references.foldl (fun rs (type, rule) => rs.note type rule) rs).tags ∧
      ∀ x, x ∈ (references.foldl (fun rs (type, rule) => rs.note type rule) rs).tags ↔
        x ∈ rs.tags ∨ x ∈ references.map (·.2.tag) := by
  induction references generalizing rs with
  | nil => exact ⟨h, by simp⟩
  | cons e references ih =>
    obtain ⟨type, rule⟩ := e
    have hnote : (rs.note type rule).tags = Text.insert rule.tag rs.tags := tags_note h
    obtain ⟨hascending, hmem⟩ := @ih (rs.note type rule) (hnote ▸ h.insert)
    refine ⟨hascending, fun x => (hmem x).trans ?_⟩
    rw [hnote, Text.mem_insert, List.map_cons, List.mem_cons, or_assoc]
    exact or_left_comm

lemma isAscending_seeded : IsAscending seeded.tags := by
  unfold IsAscending
  decide

lemma isAscending_collect : IsAscending (collect candidates custom).tags := by
  unfold collect
  split
  · exact (isAscending_foldl_note isAscending_seeded).1
  · exact isAscending_seeded

lemma mem_occurrences : tag ∈ (occurrences candidates).map (·.2.tag) ↔
    ∃ c ∈ candidates, ∃ f ∈ c.fields, ∃ rule ∈ f.rules, rule.isCustom ∧ rule.tag = tag := by
  simp only [occurrences, Candidate.rules, List.mem_map, List.mem_flatMap, List.mem_filter]
  constructor
  · rintro ⟨_, ⟨c, hc, rule, ⟨⟨f, hf, hrule⟩, hcustom⟩, rfl⟩, rfl⟩
    exact ⟨c, hc, f, hf, rule, hrule, hcustom, rfl⟩
  · rintro ⟨c, hc, f, hf, rule, hrule, hcustom, rfl⟩
    exact ⟨(c.name, rule), ⟨c, hc, rule, ⟨⟨f, hf, hrule⟩, hcustom⟩, rfl⟩, rfl⟩

/-- **Which tags are required.** -/
theorem mem_tags_collect : tag ∈ (collect candidates custom).tags ↔
    tag ∈ seeded.tags ∨ custom ∧ ∃ c ∈ candidates, ∃ f ∈ c.fields, ∃ rule ∈ f.rules, rule.isCustom ∧ rule.tag = tag := by
  cases custom with
  | false => simp [collect]
  | true => rw [collect, if_pos rfl, (isAscending_foldl_note isAscending_seeded).2, mem_occurrences, eq_self, true_and]

/-- No required tag is empty. -/
lemma ne_nil_of_mem_tags_collect (h : tag ∈ (collect candidates custom).tags) : tag ≠ [] := by
  rcases mem_tags_collect.1 h with hseeded | ⟨-, c, -, f, -, rule, hrule, -, rfl⟩
  · have hne : [] ∉ seeded.tags := by decide
    rintro rfl
    exact hne hseeded
  · exact (Rule.tag_of_mem_ofTag hrule).1

end RuleWeaver.Requirements

namespace RuleWeaver.Additions

variable {candidates : List Candidate} {types : List Text} {required : Requirements} {registry : Registry}

lemma functions_compute : (compute candidates types required registry).functions =
    firstOfEachName [] ((required.tags.filter fun tag => !registry.isImplemented tag).map fun tag =>
      ⟨tag, registry.boundFunction tag⟩) := by
  rw [Requirements.tags, List.filter_map, List.map_map]
  rfl

lemma bindings_compute : (compute candidates types required registry).bindings =
    (required.tags.filter fun tag => !registry.tags.contains tag).map fun tag => ⟨tag, registry.boundFunction tag⟩ := by
  rw [Requirements.tags, List.filter_map, List.map_map]
  rfl

end RuleWeaver.Additions
