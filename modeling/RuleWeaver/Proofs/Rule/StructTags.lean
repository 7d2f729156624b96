import RuleWeaver.Proofs.Rule.NormalForm

/-!
# Struct tags

A struct tag is a sequence of pairs `key:"value"`, and its rules are meant to be what stands under the key `validate`.  What is
read is the text between two quotes behind white space and `validate:`, wherever these quotes come from: it can be the value of a
key that merely ends in `validate`, or the next key, when a value ends in `validate:` (`ofTag_tagText`).  So a struct tag yields
other rules than those of its `validate` key exactly if such a text stands in front of it and lists other rules
(`only_validate_key_is_read_iff`).
-/

namespace RuleWeaver.Rule

open Text (splitOnce? join)
open Unicode (isSpace)

variable {s t b word list : Text} {c : Char}

/-- One pair of a struct tag. -/
structure TagPair where
  key : Text
  value : Text

namespace TagPair

/-- The pair as it is written. -/
def text (p : TagPair) : Text := p.key ++ ':' :: '\"' :: (p.value ++ ['\"'])

/-- Keys are not empty and hold no spaces, colons and quotes; values hold no quotes and backslashes. -/
structure IsConventional (p : TagPair) : Prop where
  key_ne_nil : p.key ≠ []
  key_plain : ∀ c ∈ p.key, c ≠ ' ' ∧ c ≠ ':' ∧ c ≠ '\"'
  value_plain : ∀ c ∈ p.value, c ≠ '\"' ∧ c ≠ '\\'

end TagPair

variable {p : TagPair} {pairs : List TagPair}

/-- Pairs with single spaces between them. -/
def tagText (pairs : List TagPair) : Text := join [' '] (pairs.map TagPair.text)

/-- The value of the first pair whose key is `validate`. -/
def valueOfPairs? (pairs : List TagPair) : Option Text := (pairs.find? fun p => p.key = "validate".toList).map (·.value)

lemma valueOfPairs?_cons :
    valueOfPairs? (p :: pairs) = if p.key = "validate" then some p.value else valueOfPairs? pairs := by
  rw [valueOfPairs?, List.find?_cons]
  by_cases hp : p.key = "validate".toList
  · rw [decide_eq_true hp, if_pos hp]
    rfl
  · rw [decide_eq_false hp, if_neg hp]
    rfl

/-- The rules under the key `validate`; none when there is no such key. -/
def ofPairs (pairs : List TagPair) : List Rule := (valueOfPairs? pairs).elim [] listed

/-! ### Words behind white space -/

/-- Whether a text ends in white space and a word. -/
def endsBehindSpace (word : Text) : Text → Bool
  | [] => false
  | c :: s => isSpace c && s = word || endsBehindSpace word s

lemma endsBehindSpace_iff : endsBehindSpace word s ↔ ∃ a c, isSpace c ∧ s = a ++ c :: word := by
  induction s with
  | nil => simp [endsBehindSpace]
  | cons d s ih =>
    rw [endsBehindSpace, Bool.or_eq_true, Bool.and_eq_true, decide_eq_true_eq, ih]
    constructor
    · rintro (⟨hd, rfl⟩ | ⟨a, c, hc, rfl⟩)
      · exact ⟨[], d, hd, rfl⟩
      · exact ⟨d :: a, c, hc, rfl⟩
    · rintro ⟨a, c, hc, h⟩
      rcases a with _ | ⟨e, a⟩
      · cases h
        exact .inl ⟨hc, rfl⟩
      · cases h
        exact .inr ⟨a, c, hc, rfl⟩

lemma endsBehindSpace_self : endsBehindSpace word word = false := by
  rw [← Bool.not_eq_true, endsBehindSpace_iff]
  rintro ⟨a, c, -, h⟩
  have := congrArg List.length h
  simp at this
  omega

lemma endsBehindSpace_append_singleton : endsBehindSpace (word ++ [c]) (s ++ [c]) = endsBehindSpace word s := by
  rw [Bool.eq_iff_iff, endsBehindSpace_iff, endsBehindSpace_iff]
  refine exists_congr fun a => exists_congr fun d => and_congr_right fun _ => ?_
  rw [← List.cons_append, ← List.append_assoc, List.append_left_inj]

/-! ### What is read -/

/-- A key in front of a quote is the whole text up to it. -/
lemma value?_append (h : '\"' ∉ b) :
    value? (b ++ '\"' :: t) =
      if b = "validate:" then (splitOnce? (fun c => c = '\"') t).map (·.1) else none := by
  have hkey : ("validate:\"".toList : Text) = "validate:" ++ ['\"'] := by decide
  split
  · next hb =>
    rw [hb, value?, hkey, List.append_cons _ _ t, Text.strip?_append]
    rfl
  · next hb =>
    cases hstrip : Text.strip? "validate:\"" (b ++ '\"' :: t) with
    | none =>
      rw [value?, hstrip]
      rfl
    | some rest =>
      have hcut := Text.strip?_eq_some_iff.1 hstrip
      rw [hkey, List.append_assoc, List.singleton_append] at hcut
      have hsplit : splitOnce? (fun c => c = '\"') (b ++ '\"' :: t) = some (b, t) :=
        Text.splitOnce?_eq_some_iff.2 ⟨'\"', rfl, rfl, fun c hc => decide_eq_false fun e => h (e ▸ hc)⟩
      have hplain : ∀ c ∈ "validate:".toList, decide (c = '\"') = false :=
        fun c hc => decide_eq_false fun e => absurd (e ▸ hc) (by decide)
      rw [hcut, Text.splitOnce?_eq_some_iff.2 ⟨'\"', rfl, rfl, hplain⟩] at hsplit
      cases hsplit
      exact absurd rfl hb

/-- **Text up to a quote** is passed, unless it ends in white space and the key: then the text up to the next quote is read. -/
lemma laterValue?_append_of {found : Option Text}
    (hvalue : ∀ b, '\"' ∉ b → value? (b ++ '\"' :: t) = if b = word then found else none) (h : '\"' ∉ s) :
    laterValue? (s ++ '\"' :: t) = (if endsBehindSpace word s then found else none).or (laterValue? t) := by
  induction s with
  | nil =>
    rw [List.nil_append, laterValue?, if_neg (by decide)]
    rfl
  | cons c s ih =>
    have hs := List.not_mem_of_not_mem_cons h
    rw [List.cons_append, laterValue?, ih hs, Option.orElse_eq_or, hvalue s hs, endsBehindSpace]
    by_cases hc : isSpace c
    · by_cases hword : s = word
      · simp [hc, hword, endsBehindSpace_self]
      · simp [hc, hword]
    · simp [hc]

lemma laterValue?_append (h : '\"' ∉ s) :
    laterValue? (s ++ '\"' :: t) =
      (if endsBehindSpace "validate:" s then (splitOnce? (fun c => c = '\"') t).map (·.1) else none).or
        (laterValue? t) :=
  laterValue?_append_of (fun _ => value?_append) h

/-- What stands in front of a `validate` key and is read for its value. -/
def misread? : List TagPair → Option Text
  | [] => none
  | p :: ps =>
    if p.key = "validate" then none
    else if endsBehindSpace "validate" p.key then some p.value
    else if endsBehindSpace "validate:" p.value then ps.head?.map fun q => ' ' :: (q.key ++ [':'])
    else misread? ps

/-- Pairs with a space in front of each. -/
def spaced (pairs : List TagPair) : Text := pairs.flatMap fun p => ' ' :: p.text

lemma spaced_cons : spaced (p :: pairs) = ' ' :: (p.key ++ [':']) ++ '\"' :: (p.value ++ '\"' :: spaced pairs) := by
  simp [spaced, TagPair.text]

lemma spaced_eq (h : pairs ≠ []) : spaced pairs = ' ' :: tagText pairs := by
  induction pairs with
  | nil => exact absurd rfl h
  | cons p ps ih =>
    rcases ps with _ | ⟨q, qs⟩
    · simp [spaced, tagText, join]
    · have hrest : spaced (q :: qs) = ' ' :: tagText (q :: qs) := ih (List.cons_ne_nil _ _)
      have hjoin : tagText (p :: q :: qs) = p.text ++ ' ' :: tagText (q :: qs) := by
        simp [tagText, join]
      rw [hjoin, ← hrest]
      rfl

lemma endsBehindSpace_head :
    endsBehindSpace "validate:" (' ' :: (p.key ++ [':'])) =
      (decide (p.key = "validate") || endsBehindSpace "validate" p.key) := by
  have hcolon : ("validate:".toList : Text) = "validate" ++ [':'] := by decide
  have hspace : isSpace ' ' = true := by decide
  rw [hcolon, ← List.cons_append, endsBehindSpace_append_singleton, endsBehindSpace, hspace, Bool.true_and]

lemma TagPair.IsConventional.splitOnce?_head (h : p.IsConventional) :
    splitOnce? (fun c => c = '\"') (' ' :: (p.key ++ [':']) ++ '\"' :: t) = some (' ' :: (p.key ++ [':']), t) := by
  refine Text.splitOnce?_eq_some_iff.2 ⟨'\"', rfl, rfl, List.forall_mem_cons.2 ⟨rfl, fun c hc => ?_⟩⟩
  rcases List.mem_append.1 hc with hc | hc
  · exact decide_eq_false (h.key_plain c hc).2.2
  · rw [List.mem_singleton.1 hc]
    rfl

/-- **Pairs.**  The value of the first `validate` key is read, unless another text is read in front of it. -/
lemma laterValue?_spaced (h : ∀ p ∈ pairs, p.IsConventional) :
    laterValue? (spaced pairs) = (misread? pairs).or (valueOfPairs? pairs) := by
  induction pairs with
  | nil => rfl
  | cons p ps ih =>
    obtain ⟨hp, hps⟩ := List.forall_mem_cons.1 h
    have hhead : '\"' ∉ ' ' :: (p.key ++ [':']) := by
      intro hmem
      simp only [List.mem_cons, List.mem_append, List.not_mem_nil, or_false] at hmem
      rcases hmem with hmem | hmem | hmem
      · cases hmem
      · exact (hp.key_plain _ hmem).2.2 rfl
      · cases hmem
    have hvalue : '\"' ∉ p.value := fun hmem => (hp.value_plain _ hmem).1 rfl
    have hread : splitOnce? (fun c => decide (c = '\"')) (p.value ++ '\"' :: spaced ps) = some (p.value, spaced ps) :=
      Text.splitOnce?_eq_some_iff.2 ⟨'\"', rfl, rfl, fun c hc => decide_eq_false (hp.value_plain c hc).1⟩
    have hnext : (splitOnce? (fun c => decide (c = '\"')) (spaced ps)).map (·.1) =
        ps.head?.map fun q => ' ' :: (q.key ++ [':']) := by
      rcases ps with _ | ⟨q, qs⟩
      · rfl
      · rw [spaced_cons, (hps q List.mem_cons_self).splitOnce?_head]
        rfl
    rw [spaced_cons, laterValue?_append hhead, laterValue?_append hvalue, hread, hnext, endsBehindSpace_head, ih hps,
      valueOfPairs?_cons, misread?]
    by_cases hvalidate : p.key = "validate".toList
    · simp only [hvalidate, decide_true, Bool.true_or, if_true, Option.map_some, Option.some_or, Option.none_or]
    by_cases hends : endsBehindSpace "validate" p.key
    · simp only [hends, Bool.or_true, if_true, if_neg hvalidate, Option.map_some, Option.some_or]
    simp only [hvalidate, hends, decide_false, Bool.or_self, Bool.false_eq_true, if_false, Option.none_or]
    split
    · -- behind the last pair there is no quote that ends what would be read
      rcases ps with _ | ⟨q, qs⟩
      · rfl
      · rfl
    · rw [Option.none_or]

lemma firstValue?_tagText (h : ∀ p ∈ pairs, p.IsConventional) :
    (value? (tagText pairs)).or (laterValue? (tagText pairs)) = (misread? pairs).or (valueOfPairs? pairs) := by
  by_cases hpairs : pairs = []
  · subst hpairs
    rfl
  · rw [← laterValue?_spaced h, spaced_eq hpairs, laterValue?, if_pos (by decide), Option.orElse_eq_or]

/-- **What a struct tag yields**: the rules of its `validate` key, unless another text is read in front of it. -/
theorem ofTag_tagText (h : ∀ p ∈ pairs, p.IsConventional) :
    ofTag (tagText pairs) = (misread? pairs).elim (ofPairs pairs) listed := by
  rw [ofTag_eq, firstValue?_tagText h]
  cases misread? pairs with
  | none => rw [Option.none_or, Option.elim_none, ofPairs]
  | some list => rw [Option.some_or, Option.elim_some, Option.elim_some]

/-- **Only the `validate` key** yields rules exactly if no text that lists other rules is read in front of it. -/
theorem only_validate_key_is_read_iff (h : ∀ p ∈ pairs, p.IsConventional) :
    ofTag (tagText pairs) = ofPairs pairs ↔ ∀ list ∈ misread? pairs, listed list = ofPairs pairs := by
  rw [ofTag_tagText h]
  cases misread? pairs with
  | none => simp
  | some list => simp

/-- A description that ends in ` validate:` makes a rule of the next key. -/
theorem description_ending_in_key_is_misread :
    let pairs : List TagPair := [⟨"desc", "see validate:"⟩, ⟨"json", "name"⟩]
    tagText pairs = "desc:\"see validate:\" json:\"name\"".toList ∧ (∀ p ∈ pairs, p.IsConventional) ∧
      ofPairs pairs = [] ∧ ofTag (tagText pairs) ≠ ofPairs pairs := by
  intro pairs
  have hpairs : ∀ p ∈ pairs, p.IsConventional := by
    intro p hp
    rcases List.mem_cons.1 hp with rfl | hp
    · exact ⟨List.cons_ne_nil _ _, by simp, by simp⟩
    · rw [List.mem_singleton.1 hp]
      exact ⟨List.cons_ne_nil _ _, by simp, by simp⟩
  have hmisread : misread? pairs = some " json:".toList := by decide
  have hlisted : listed " json:" ≠ ofPairs pairs := by decide
  exact ⟨by decide, hpairs, by decide, fun e =>
    hlisted ((only_validate_key_is_read_iff hpairs).1 e _ hmisread)⟩

end RuleWeaver.Rule
