import RuleWeaver.Proofs.Text.Basic

/-!
# Text in pieces

What cutting a text at separators gives, and what trimming it leaves: pieces hold no separators and are found again when they
are joined, and a text without white space at its ends is trimmed already.  The last line is what stands behind the last line
break.
-/

namespace RuleWeaver.Text

open Unicode (isSpace)

variable {p : Char → Bool} {s t a b w : Text} {ws : List Text} {c d : Char}

/-! ### Pieces between separators -/

@[simp] lemma split_ne_nil : split p s ≠ [] := by
  cases s with
  | nil => exact List.cons_ne_nil _ _
  | cons c s =>
    unfold split
    split
    · exact List.cons_ne_nil _ _
    · split <;> exact List.cons_ne_nil _ _

/-- A separator ends a piece. -/
lemma split_append_cons (hc : p c) : split p (s ++ c :: t) = split p s ++ split p t := by
  induction s with
  | nil => simp only [List.nil_append, split, hc, if_true, List.singleton_append]
  | cons d s ih =>
    rw [List.cons_append, split, split, ih]
    split
    · rfl
    · cases h : split p s with
      | nil => exact absurd h split_ne_nil
      | cons w ws => rfl

lemma split_of_forall (h : ∀ c ∈ s, p c = false) : split p s = [s] := by
  induction s with
  | nil => rfl
  | cons c s ih =>
    obtain ⟨hc, hs⟩ := List.forall_mem_cons.1 h
    simp only [split, hc, ih hs, Bool.false_eq_true, if_false]

lemma not_of_mem_split {w : Text} (hw : w ∈ split p s) (hc : c ∈ w) : p c = false := by
  induction s generalizing w with
  | nil =>
    rw [split, List.mem_singleton] at hw
    rw [hw] at hc
    cases hc
  | cons d s ih =>
    unfold split at hw
    split at hw
    · rcases List.mem_cons.1 hw with rfl | hw
      · cases hc
      · exact ih hw hc
    · next hd =>
      cases h : split p s with
      | nil => exact absurd h split_ne_nil
      | cons v vs =>
        rw [h] at hw ih
        rcases List.mem_cons.1 hw with rfl | hw
        · rcases List.mem_cons.1 hc with rfl | hc
          · exact Bool.eq_false_iff.2 hd
          · exact ih List.mem_cons_self hc
        · exact ih (List.mem_cons_of_mem _ hw) hc

lemma eq_nil_or_of_split_eq_nil_cons (h : split p s = [] :: ws) : s = [] ∨ ∃ c t, s = c :: t ∧ p c := by
  cases s with
  | nil => exact .inl rfl
  | cons c t =>
    unfold split at h
    split at h
    · next hc => exact .inr ⟨c, t, rfl, hc⟩
    · split at h <;> cases h

/-- Pieces without separators are found again. -/
lemma split_join (hws : ws ≠ []) (h : ∀ w ∈ ws, ∀ c ∈ w, p c = false) (hd : p d) : split p (join [d] ws) = ws := by
  induction ws with
  | nil => exact absurd rfl hws
  | cons w ws ih =>
    obtain ⟨hw, hrest⟩ := List.forall_mem_cons.1 h
    cases ws with
    | nil => exact split_of_forall hw
    | cons v vs =>
      rw [join, List.append_assoc, List.singleton_append, split_append_cons hd, split_of_forall hw,
        ih (List.cons_ne_nil _ _) hrest, List.singleton_append]

lemma mem_of_mem_split (hw : w ∈ split p s) (hc : c ∈ w) : c ∈ s := by
  induction s generalizing w with
  | nil =>
    rw [split, List.mem_singleton] at hw
    rwa [hw] at hc
  | cons d s ih =>
    rw [split] at hw
    split at hw
    · rcases List.mem_cons.1 hw with rfl | hw
      · cases hc
      · exact List.mem_cons_of_mem _ (ih hw hc)
    · split at hw
      · next v vs hvs =>
        rcases List.mem_cons.1 hw with rfl | hw
        · rcases List.mem_cons.1 hc with rfl | hc
          · exact List.mem_cons_self
          · exact List.mem_cons_of_mem _ (ih (by rw [hvs]; exact List.mem_cons_self) hc)
        · exact List.mem_cons_of_mem _ (ih (by rw [hvs]; exact List.mem_cons_of_mem _ hw) hc)
      · rw [List.mem_singleton] at hw
        rw [hw, List.mem_singleton] at hc
        exact hc ▸ List.mem_cons_self

lemma mem_of_mem_join (h : c ∈ join s ws) : c ∈ s ∨ ∃ w ∈ ws, c ∈ w := by
  induction ws with
  | nil => cases h
  | cons w ws ih =>
    cases ws with
    | nil => exact .inr ⟨w, List.mem_cons_self, h⟩
    | cons v vs =>
      rw [join, List.append_assoc, List.mem_append, List.mem_append] at h
      rcases h with h | h | h
      · exact .inr ⟨w, List.mem_cons_self, h⟩
      · exact .inl h
      · refine (ih h).imp_right ?_
        rintro ⟨x, hx, hcx⟩
        exact ⟨x, List.mem_cons_of_mem _ hx, hcx⟩

/-! ### The first separator -/

lemma splitOnce?_eq_some_iff :
    splitOnce? p s = some (a, b) ↔ ∃ d, p d ∧ s = a ++ d :: b ∧ ∀ c ∈ a, p c = false := by
  induction s generalizing a with
  | nil => simp [splitOnce?]
  | cons e s ih =>
    rw [splitOnce?]
    split
    · next he =>
      constructor
      · intro h
        cases h
        exact ⟨e, he, rfl, fun c hc => absurd hc List.not_mem_nil⟩
      · rintro ⟨d, -, hs, ha⟩
        rcases a with _ | ⟨c, a⟩
        · cases hs
          rfl
        · cases hs
          rw [ha e List.mem_cons_self] at he
          cases he
    · next he =>
      rw [Option.map_eq_some_iff]
      constructor
      · rintro ⟨⟨a', b'⟩, h, e⟩
        cases e
        obtain ⟨d, hd, rfl, ha⟩ := ih.1 h
        exact ⟨d, hd, rfl, List.forall_mem_cons.2 ⟨Bool.eq_false_iff.2 he, ha⟩⟩
      · rintro ⟨d, hd, hs, ha⟩
        rcases a with _ | ⟨c, a⟩
        · cases hs
          exact absurd hd he
        · cases hs
          exact ⟨(a, b), ih.2 ⟨d, hd, rfl, (List.forall_mem_cons.1 ha).2⟩, rfl⟩

lemma splitOnce?_eq_none_iff : splitOnce? p s = none ↔ ∀ c ∈ s, p c = false := by
  induction s with
  | nil => simp [splitOnce?]
  | cons c s ih =>
    rw [splitOnce?, List.forall_mem_cons]
    split
    · next hc => simp [hc]
    · next hc => rw [Option.map_eq_none_iff, ih, and_iff_right (Bool.eq_false_iff.2 hc)]

/-! ### Trimming -/

/-- Whether a text neither begins nor ends with white space. -/
def IsTight (s : Text) : Prop := (∀ c ∈ s.head?, isSpace c = false) ∧ ∀ c ∈ s.getLast?, isSpace c = false

lemma trimEnd_of_getLast? (h : ∀ c ∈ s.getLast?, isSpace c = false) : trimEnd s = s := by
  rcases List.eq_nil_or_concat' s with rfl | ⟨t, c, rfl⟩
  · rfl
  · have hc : isSpace c = false := h c List.getLast?_concat
    rw [trimEnd, List.reverse_append, List.reverse_singleton, List.singleton_append, List.dropWhile_cons, hc, if_neg Bool.false_ne_true, List.reverse_cons,
      List.reverse_reverse]

/-- **Trimming** leaves tight texts as they are. -/
lemma IsTight.trim_eq (h : IsTight s) : trim s = s := by
  have hstart : trimStart s = s := by
    rcases s with _ | ⟨c, s⟩
    · rfl
    · rw [trimStart, List.dropWhile_cons, h.1 c rfl]
      rfl
  rw [trim, hstart, trimEnd_of_getLast? h.2]

lemma mem_of_mem_trim (h : c ∈ trim s) : c ∈ s := by
  rw [trim, trimEnd, List.mem_reverse] at h
  have h := (List.dropWhile_sublist _).mem h
  rw [List.mem_reverse] at h
  exact (List.dropWhile_sublist _).mem h

lemma isTight_trim : IsTight (trim s) := by
  have hfirst : ∀ t : Text, ∀ c ∈ (t.dropWhile isSpace).head?, isSpace c = false := by
    intro t c hc
    have hdrop := List.head?_dropWhile_not isSpace t
    rw [Option.mem_def.1 hc] at hdrop
    exact hdrop
  refine ⟨fun c hc => ?_, fun c hc => ?_⟩
  · refine hfirst s c ?_
    have hprefix : trim s <+: trimStart s := by
      rw [trim, trimEnd, ← List.reverse_suffix, List.reverse_reverse]
      exact List.dropWhile_suffix _
    obtain ⟨t, ht⟩ := hprefix
    rw [← trimStart, ← ht, List.head?_append, Option.mem_def.1 hc]
    rfl
  · rw [trim, trimEnd, List.getLast?_reverse] at hc
    exact hfirst _ c hc

lemma IsTight.append (ha : IsTight a) (hane : a ≠ []) (hb : IsTight b) (hbne : b ≠ []) : IsTight (a ++ (s ++ b)) := by
  refine ⟨?_, ?_⟩
  · rw [List.head?_append_of_ne_nil _ hane]
    exact ha.1
  · rw [List.getLast?_append_of_ne_nil _ (List.append_ne_nil_of_right_ne_nil _ hbne), List.getLast?_append_of_ne_nil _ hbne]
    exact hb.2

lemma isTight_of_forall (h : ∀ c ∈ s, isSpace c = false) : IsTight s :=
  ⟨fun c hc => h c (List.mem_of_mem_head? hc), fun c hc => h c (List.mem_of_mem_getLast? hc)⟩

/-! ### Words -/

/-- Whether a text can stand as one of several words: it is not empty and holds no white space. -/
def IsWord (w : Text) : Prop := w ≠ [] ∧ ∀ c ∈ w, isSpace c = false

lemma isWord_of_mem_words (h : w ∈ words s) : IsWord w := by
  obtain ⟨hw, hne⟩ := List.mem_filter.1 h
  exact ⟨of_decide_eq_true hne, fun c hc => not_of_mem_split hw hc⟩

lemma mem_of_mem_words (hw : w ∈ words s) (hc : c ∈ w) : c ∈ s := mem_of_mem_split (List.mem_filter.1 hw).1 hc

/-- **Words** are found again behind single spaces. -/
lemma words_join (h : ∀ w ∈ ws, IsWord w) : words (join [' '] ws) = ws := by
  by_cases hws : ws = []
  · subst hws
    rfl
  · rw [words, split_join hws (fun w hw => (h w hw).2) (by decide), List.filter_eq_self]
    exact fun w hw => decide_eq_true (h w hw).1

lemma join_ne_nil (hws : ws ≠ []) (h : ∀ w ∈ ws, IsWord w) : join [' '] ws ≠ [] := by
  rcases ws with _ | ⟨w, _ | ⟨v, ws⟩⟩
  · exact absurd rfl hws
  · exact (h w List.mem_cons_self).1
  · rw [join, List.append_assoc]
    exact List.append_ne_nil_of_left_ne_nil (h w List.mem_cons_self).1 _

lemma isTight_join (h : ∀ w ∈ ws, IsWord w) : IsTight (join [' '] ws) := by
  induction ws with
  | nil => exact isTight_of_forall fun c hc => absurd hc List.not_mem_nil
  | cons w ws ih =>
    obtain ⟨hw, hrest⟩ := List.forall_mem_cons.1 h
    cases ws with
    | nil => exact isTight_of_forall hw.2
    | cons v vs =>
      rw [join, List.append_assoc]
      exact (isTight_of_forall hw.2).append hw.1 (ih hrest) (join_ne_nil (List.cons_ne_nil _ _) hrest)

/-! ### The last line -/

/-- What a text ends in behind its last line break. -/
def lastLine (u : Text) : Text := (u.reverse.takeWhile (· ≠ '\n')).reverse

@[simp] lemma lastLine_nil : lastLine [] = [] := rfl

lemma lastLine_append (hb : '\n' ∉ b) : lastLine (a ++ b) = lastLine a ++ b := by
  have hall : ∀ c ∈ b.reverse, decide (c ≠ '\n') := fun c hc => decide_eq_true fun h => hb (h ▸ List.mem_reverse.1 hc)
  rw [lastLine, List.reverse_append, List.takeWhile_append_of_pos hall, List.reverse_append, List.reverse_reverse, lastLine]

lemma lastLine_of_not_mem (ha : '\n' ∉ a) : lastLine a = a := lastLine_append (a := []) ha

/-- A line break begins a line. -/
lemma lastLine_append_newline : lastLine (a ++ '\n' :: b) = lastLine b := by
  rw [lastLine, List.reverse_append, List.reverse_cons, List.append_assoc, List.singleton_append,
    takeWhile_append_cons (by decide), lastLine]

/-- What is in front of a line break does not count for the last line. -/
lemma lastLine_cons_of_mem (ha : '\n' ∈ a) : lastLine (c :: a) = lastLine a := by
  obtain ⟨u, v, rfl⟩ := List.append_of_mem ha
  rw [← List.cons_append, lastLine_append_newline, lastLine_append_newline]

end RuleWeaver.Text
