import RuleWeaver.Rule.Basic
import RuleWeaver.Proofs.Text.Splitting

/-!
# The normal form of rules

Every rule that is read is in a normal form: its tag is tight and holds no separators, and its parameters are words
(`Rule.IsNormal`).  Rules in normal form are read back as they were written, so the lists that a struct tag can hold are exactly
the lists of such rules.
-/

namespace RuleWeaver.Rule

open Text (split splitOnce? trim words join IsTight IsWord)

variable {s w tag token list : Text} {c : Char} {r : Rule} {rules : List Rule}

/-- The characters that stand between rules, and around a list of them. -/
def isDelimiter (c : Char) : Bool := c = ',' || c = '|' || c = '\"'

/-- Tags hold neither delimiters nor `=`, and parameters no delimiters. -/
structure IsNormal (r : Rule) : Prop where
  tag_ne_nil : r.tag ≠ []
  tag_tight : IsTight r.tag
  tag_plain : ∀ c ∈ r.tag, isDelimiter c = false ∧ c ≠ '='
  param_word : ∀ ps ∈ r.params, ∀ p ∈ ps, IsWord p
  param_plain : ∀ ps ∈ r.params, ∀ p ∈ ps, ∀ c ∈ p, isDelimiter c = false

/-! ### Reading -/

/-- **A rule that is read** is in normal form. -/
lemma isNormal_of_parse? (h : parse? token = some r) (hplain : ∀ c ∈ token, isDelimiter c = false) : r.IsNormal := by
  unfold parse? at h
  cases hsplit : splitOnce? (fun d => decide (d = '=')) (trim token) with
  | none =>
    simp only [hsplit] at h
    split at h
    · cases h
    · next hne =>
      obtain rfl := Option.some.inj h
      have hequal := Text.splitOnce?_eq_none_iff.1 hsplit
      refine ⟨hne, Text.isTight_trim, fun c hc => ?_, nofun, nofun⟩
      exact ⟨hplain c (Text.mem_of_mem_trim hc), of_decide_eq_false (hequal c hc)⟩
  | some parts =>
    simp only [hsplit] at h
    split at h
    · cases h
    · next hne =>
      obtain rfl := Option.some.inj h
      obtain ⟨d, -, htrim, hequal⟩ := Text.splitOnce?_eq_some_iff.1 hsplit
      have hmem : ∀ c ∈ parts.1 ++ d :: parts.2, isDelimiter c = false := fun c hc =>
        hplain c (Text.mem_of_mem_trim (htrim ▸ hc))
      refine ⟨hne, Text.isTight_trim, fun c hc => ?_, ?_, ?_⟩
      · have hc := Text.mem_of_mem_trim hc
        exact ⟨hmem c (List.mem_append_left _ hc), of_decide_eq_false (hequal c hc)⟩
      · rintro ps ⟨⟩ p hp
        exact Text.isWord_of_mem_words hp
      · rintro ps ⟨⟩ p hp c hc
        exact hmem c (List.mem_append_right _ (List.mem_cons_of_mem _ (Text.mem_of_mem_words hp hc)))

lemma quote_not_mem_value (h : value? s = some w) : '\"' ∉ w := by
  obtain ⟨rest, -, h⟩ := Option.bind_eq_some_iff.1 h
  obtain ⟨⟨a, b⟩, hsplit, rfl⟩ := Option.map_eq_some_iff.1 h
  obtain ⟨-, -, -, hquote⟩ := Text.splitOnce?_eq_some_iff.1 hsplit
  exact fun hmem => of_decide_eq_false (hquote _ hmem) rfl

lemma quote_not_mem_laterValue (h : laterValue? s = some w) : '\"' ∉ w := by
  induction s with
  | nil => cases h
  | cons c s ih =>
    rw [laterValue?] at h
    split at h
    · rw [Option.orElse_eq_or, Option.or_eq_some_iff] at h
      rcases h with hvalue | ⟨-, hlater⟩
      · exact quote_not_mem_value hvalue
      · exact ih hlater
    · exact ih h

/-- The rules of a list; `,` and `|` both separate them. -/
def listed (list : Text) : List Rule := (split (fun c => c = ',' || c = '|') list).filterMap parse?

lemma ofTag_eq : ofTag tag = ((value? tag).or (laterValue? tag)).elim [] listed := by
  rw [ofTag, Option.orElse_eq_or]
  cases (value? tag).or (laterValue? tag) <;> rfl

/-- **The rules of a struct tag** are in normal form. -/
lemma isNormal_of_mem_ofTag (h : r ∈ ofTag tag) : r.IsNormal := by
  rw [ofTag_eq] at h
  cases hlist : (value? tag).or (laterValue? tag) with
  | none =>
    rw [hlist] at h
    cases h
  | some list =>
    rw [hlist] at h
    obtain ⟨token, htoken, hparse⟩ := List.mem_filterMap.1 h
    have hquote : '\"' ∉ list := by
      rcases Option.or_eq_some_iff.1 hlist with hvalue | ⟨-, hlater⟩
      · exact quote_not_mem_value hvalue
      · exact quote_not_mem_laterValue hlater
    refine isNormal_of_parse? hparse fun c hc => ?_
    have hseparator := Text.not_of_mem_split htoken hc
    have hne : c ≠ '\"' := fun e => hquote (e ▸ Text.mem_of_mem_split htoken hc)
    rw [isDelimiter, hseparator, decide_eq_false hne]
    rfl

lemma tag_of_mem_ofTag (h : r ∈ ofTag tag) : r.tag ≠ [] ∧ '\"' ∉ r.tag :=
  ⟨(isNormal_of_mem_ofTag h).tag_ne_nil,
    fun hquote => absurd ((isNormal_of_mem_ofTag h).tag_plain _ hquote).1 (by decide)⟩

/-! ### Writing -/

/-- A rule as it stands in a list. -/
def text (r : Rule) : Text := r.tag ++ r.params.elim [] fun ps => '=' :: join [' '] ps

/-- A struct tag that lists the rules. -/
def structTag (rules : List Rule) : Text := "validate:\"" ++ (join [','] (rules.map text) ++ "\"")

lemma IsNormal.plain_text (h : r.IsNormal) : ∀ c ∈ r.text, isDelimiter c = false := by
  intro c hc
  rcases List.mem_append.1 hc with hc | hc
  · exact (h.tag_plain c hc).1
  cases hparams : r.params with
  | none =>
    rw [hparams] at hc
    cases hc
  | some ps =>
    rw [hparams] at hc
    rcases List.mem_cons.1 hc with rfl | hc
    · rfl
    rcases Text.mem_of_mem_join hc with hc | ⟨p, hp, hc⟩
    · rw [List.mem_singleton.1 hc]
      rfl
    · exact h.param_plain ps hparams p hp c hc

/-- **A rule in normal form** is read back from its text. -/
lemma IsNormal.parse?_text (h : r.IsNormal) : parse? r.text = some r := by
  obtain ⟨tag, params⟩ := r
  have hequal : ∀ c ∈ tag, decide (c = '=') = false := fun c hc => decide_eq_false (h.tag_plain c hc).2
  have htrim : trim tag = tag := h.tag_tight.trim_eq
  cases params with
  | none =>
    have htext : text ⟨tag, none⟩ = tag := List.append_nil tag
    have hsplit := Text.splitOnce?_eq_none_iff.2 hequal
    simp only [htext, parse?, htrim, hsplit, if_neg h.tag_ne_nil]
  | some ps =>
    have hwords : ∀ p ∈ ps, IsWord p := h.param_word ps rfl
    have htext : text ⟨tag, some ps⟩ = tag ++ '=' :: join [' '] ps := rfl
    have htight : IsTight (tag ++ '=' :: join [' '] ps) := by
      by_cases hps : ps = []
      · subst hps
        have hsign : IsTight ['='] := Text.isTight_of_forall (List.forall_mem_singleton.2 rfl)
        exact h.tag_tight.append (s := []) h.tag_ne_nil hsign (List.cons_ne_nil '=' [])
      · exact h.tag_tight.append (s := ['=']) h.tag_ne_nil (Text.isTight_join hwords) (Text.join_ne_nil hps hwords)
    have hsplit : splitOnce? (fun d => decide (d = '=')) (tag ++ '=' :: join [' '] ps) = some (tag, join [' '] ps) :=
      Text.splitOnce?_eq_some_iff.2 ⟨'=', rfl, rfl, hequal⟩
    simp only [htext, parse?, htight.trim_eq, hsplit, htrim, Text.words_join hwords, if_neg h.tag_ne_nil]

/-- A list that holds no quotes is the value of its own struct tag. -/
lemma value?_of_key (h : '\"' ∉ list) : value? ("validate:\"" ++ (list ++ "\"")) = some list := by
  have hsplit : splitOnce? (fun c => decide (c = '\"')) (list ++ "\"") = some (list, []) :=
    Text.splitOnce?_eq_some_iff.2 ⟨'\"', rfl, rfl, fun c hc => decide_eq_false fun e => h (e ▸ hc)⟩
  rw [value?, Text.strip?_append, Option.bind_some, hsplit, Option.map_some]

/-- **Rules in normal form** are read back from the struct tag that lists them. -/
lemma ofTag_structTag (h : ∀ r ∈ rules, r.IsNormal) : ofTag (structTag rules) = rules := by
  have hplain : ∀ w ∈ rules.map text, ∀ c ∈ w, isDelimiter c = false := by
    intro w hw
    obtain ⟨r, hr, rfl⟩ := List.mem_map.1 hw
    exact (h r hr).plain_text
  have hquote : '\"' ∉ join [','] (rules.map text) := by
    intro hmem
    rcases Text.mem_of_mem_join hmem with hmem | ⟨w, hw, hmem⟩
    · exact absurd hmem (by decide)
    · exact absurd (hplain w hw _ hmem) (by decide)
  have hvalue : value? (structTag rules) = some (join [','] (rules.map text)) := value?_of_key hquote
  rw [ofTag_eq, hvalue, Option.some_or, Option.elim_some, listed]
  by_cases hrules : rules = []
  · subst hrules
    rfl
  have hsplit : split (fun c => c = ',' || c = '|') (join [','] (rules.map text)) = rules.map text := by
    refine Text.split_join (mt List.map_eq_nil_iff.1 hrules) (fun w hw c hc => ?_) (by decide)
    exact (Bool.or_eq_false_iff.1 (hplain w hw c hc)).1
  have hread : ∀ r ∈ rules, (parse? ∘ text) r = some r := fun r hr => (h r hr).parse?_text
  rw [hsplit, List.filterMap_map, List.filterMap_congr hread, List.filterMap_some]

/-- The lists that a struct tag can hold are the lists of rules in normal form. -/
theorem exists_ofTag_eq_iff : (∃ tag, ofTag tag = rules) ↔ ∀ r ∈ rules, r.IsNormal := by
  constructor
  · rintro ⟨tag, rfl⟩ r hr
    exact isNormal_of_mem_ofTag hr
  · exact fun h => ⟨structTag rules, ofTag_structTag h⟩

/-- **Normal form.**  Every rule of a struct tag is in normal form, and the rules are read again from the struct tag that lists
them. -/
theorem rules_are_normal_and_read_again (tag : Text) :
    (∀ r ∈ ofTag tag, r.IsNormal) ∧ ofTag (structTag (ofTag tag)) = ofTag tag :=
  ⟨fun _ hr => isNormal_of_mem_ofTag hr, ofTag_structTag fun _ hr => isNormal_of_mem_ofTag hr⟩

end RuleWeaver.Rule
