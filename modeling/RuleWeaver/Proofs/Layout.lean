import RuleWeaver.Layout
import RuleWeaver.Proofs.Path
import RuleWeaver.Proofs.Source.Tidying

/-!
# What layout leaves

Layout goes from line to line.  Most lines end in a line break of the code; those that end inside a literal or a comment
stay as they are (`isInside_of_long`), so that what is between two line breaks of the code is laid out as one line
(`layoutLines_run`).  Line by line the lexemes of the result are those of the text with less white space in front of line
breaks, and without white space at the beginning (`layout_eq_ok`).
-/

namespace RuleWeaver

open Source (Lexeme Kind Token lex tokens tokenize joined lineBreak isTrimmed isBlank_of_isTrimmed IsLexed TidiedTo Tidied isWhole)
open Relation (ReflTransGen)

variable {a b p q s t u w y : Text} {c : Char} {n : Text} {ts : List Token} {A B C L M : List Lexeme} {l : Lexeme} {o : Nat}

/-! ### Lines and their ends -/

lemma physicalLines_append (h : '\n' ∉ a) : physicalLines (a ++ '\n' :: y) = a :: physicalLines y := by
  have hsplit : Text.split (· = '\n') (a ++ '\n' :: y) = a :: Text.split (· = '\n') y := by
    rw [Text.split_append_cons (by simp), Text.split_of_forall fun c hc => by simpa using ne_of_mem_of_not_mem hc h]
    rfl
  obtain ⟨x, xs, hxs⟩ := List.exists_cons_of_ne_nil (Text.split_ne_nil (p := (· = '\n')) (s := y))
  unfold physicalLines
  simp only [hsplit, hxs, List.getLast?_cons_cons, List.dropLast_cons_cons]
  split <;> rfl

lemma physicalLines_nil : physicalLines [] = [] := rfl

lemma physicalLines_last (h : '\n' ∉ a) (ha : a ≠ []) : physicalLines a = [a] := by
  unfold physicalLines
  rw [Text.split_of_forall fun c hc => by simpa using ne_of_mem_of_not_mem hc h]
  simp [ha]

lemma trimBlanks_eq_of_last (h : ∀ x ∈ s.getLast?, isTrimmed x = false) : trimBlanks s = s := by
  rcases List.eq_nil_or_concat' s with rfl | ⟨t, x, rfl⟩
  · rfl
  · have hx : isTrimmed x = false := h x (by simp)
    unfold isTrimmed at hx
    simp [trimBlanks, hx]

lemma trimBlanks_append_of_all (h : w.all isTrimmed) : trimBlanks (s ++ w) = trimBlanks s := by
  unfold trimBlanks
  rw [List.reverse_append, List.dropWhile_append_of_pos]
  intro x hx
  exact List.all_eq_true.1 h x (List.mem_reverse.1 hx)

/-- A line is its text without the blanks at its end, and these. -/
lemma exists_trimBlanks (s : Text) :
    ∃ t w, s = t ++ w ∧ w.all isTrimmed ∧ trimBlanks s = t ∧ ∀ x ∈ t.getLast?, isTrimmed x = false := by
  induction s using List.reverseRecOn with
  | nil => exact ⟨[], [], rfl, rfl, rfl, by simp⟩
  | append_singleton s x ih =>
    by_cases hx : isTrimmed x
    · obtain ⟨t, w, rfl, hw, ht, hlast⟩ := ih
      refine ⟨t, w ++ [x], by simp, by simp [hw, hx], ?_, hlast⟩
      rw [trimBlanks_append_of_all (by simp [hx]), ht]
    · have hlast : ∀ y ∈ (s ++ [x]).getLast?, isTrimmed y = false := by simpa using hx
      exact ⟨s ++ [x], [], by simp, rfl, trimBlanks_eq_of_last hlast, hlast⟩

lemma trimBlanks_trimBlanks (s : Text) : trimBlanks (trimBlanks s) = trimBlanks s := by
  obtain ⟨t, w, -, -, ht, hlast⟩ := exists_trimBlanks s
  rw [ht, trimBlanks_eq_of_last hlast]

lemma trimBlanks_append (h : trimBlanks t ≠ []) : trimBlanks (s ++ t) = s ++ trimBlanks t := by
  obtain ⟨t, w, rfl, hw, ht, hlast⟩ := exists_trimBlanks t
  rw [ht] at h ⊢
  rw [← List.append_assoc, trimBlanks_append_of_all hw]
  refine trimBlanks_eq_of_last ?_
  rwa [List.getLast?_append_of_ne_nil _ h]

lemma trimBlanks_ne_nil (hc : c ∈ s) (h : isTrimmed c = false) : trimBlanks s ≠ [] := by
  obtain ⟨t, w, rfl, hw, ht, -⟩ := exists_trimBlanks s
  rw [ht]
  rintro rfl
  rw [List.all_eq_true.1 hw c hc] at h
  cases h

/-! ### Ranges in which nothing changes -/

lemma isInside_iff (htokens : tokenize n = .ok ts) : isInside (keptSpans ts) o ↔ ∃ t ∈ tokens n,
    ((t.kind = .rawString ∨ t.kind = .blockComment) ∧ '\n' ∈ t.text) ∧ t.start < o ∧ o < t.stop := by
  rw [(Source.tokenize_eq_ok_iff.1 htokens).2.2]
  simp only [isInside, keptSpans, List.any_map, List.any_filter, List.any_eq_true, Function.comp_apply, Token.span,
    Bool.and_eq_true, decide_eq_true_eq]
  refine exists_congr fun t => and_congr_right fun _ => ⟨fun h => h.2, fun h => ⟨?_, h⟩⟩
  rcases h.1.1 with e | e <;> rw [e] <;> decide

/-- Between two lexemes one is not inside of any. -/
lemma not_isInside (htokens : tokenize n = .ok ts) (h : lex n = A ++ B) : isInside (keptSpans ts) (joined A).width = false := by
  rw [← Bool.not_eq_true, isInside_iff htokens]
  rintro ⟨t, ht, -, hstart, hstop⟩
  obtain ⟨xs, ys, hxs, hstart'⟩ := Source.mem_tokens.1 ht
  rw [Token.stop, hstart'] at hstop
  rw [hstart'] at hstart
  rcases List.append_eq_append_iff.1 (hxs.symm.trans h) with ⟨D, rfl, hD⟩ | ⟨D, rfl, -⟩
  · rcases D with _ | ⟨m, D⟩
    · rw [List.append_nil] at hstart
      exact lt_irrefl _ hstart
    · obtain ⟨rfl, -⟩ := List.cons.inj hD
      simp only [Source.joined_append, Source.joined_cons, Text.width_append, Source.Token.lexeme_text] at hstop
      omega
  · simp only [Source.joined_append, Text.width_append] at hstart
    omega

lemma isInside_of_long (htokens : tokenize n = .ok ts) (h : lex n = A ++ l :: B)
    (hk : l.kind = .rawString ∨ l.kind = .blockComment) (hbreak : '\n' ∈ l.text) (hl : l.text = p ++ q) (hp : p ≠ [])
    (hq : q ≠ []) : isInside (keptSpans ts) ((joined A).width + p.width) := by
  rw [isInside_iff htokens]
  have hp' : p.width ≠ 0 := fun h => hp (Text.width_eq_zero_iff.1 h)
  have hq' : q.width ≠ 0 := fun h => hq (Text.width_eq_zero_iff.1 h)
  refine ⟨⟨l.kind, l.text, (joined A).width⟩, Source.mem_tokens.2 ⟨A, B, h, rfl⟩, ⟨hk, hbreak⟩, ?_, ?_⟩
  · show (joined A).width < _
    omega
  · rw [Token.stop, hl, Text.width_append]
    show _ < (joined A).width + _
    omega

/-! ### What is between two line breaks of the code -/

/-- A line break that is no lexeme by itself stands inside a literal or a comment. -/
lemma exists_long (hC : ∀ l ∈ C, l.kind ≠ .newline ∧ l.Form) (h : joined C = p ++ '\n' :: q) :
    ∃ C₁ l C₂ x z c, C = C₁ ++ l :: C₂ ∧ (l.kind = .rawString ∨ l.kind = .blockComment) ∧ l.text = x ++ '\n' :: (z ++ [c]) ∧
      x ≠ [] ∧ isTrimmed c = false ∧ p = joined C₁ ++ x ∧ q = z ++ c :: joined C₂ := by
  induction C generalizing p with
  | nil => simp at h
  | cons l C ih =>
    obtain ⟨⟨hk, hform⟩, hC⟩ := List.forall_mem_cons.1 hC
    have behind : ∀ p', p = l.text ++ p' → joined C = p' ++ '\n' :: q → ∃ C₁ m C₂ x z c, l :: C = C₁ ++ m :: C₂ ∧
        (m.kind = .rawString ∨ m.kind = .blockComment) ∧ m.text = x ++ '\n' :: (z ++ [c]) ∧ x ≠ [] ∧ isTrimmed c = false ∧
          p = joined C₁ ++ x ∧ q = z ++ c :: joined C₂ := by
      rintro p' rfl h'
      obtain ⟨C₁, m, C₂, x, z, c, rfl, hm, ht, hx, hc, rfl, rfl⟩ := ih hC h'
      exact ⟨l :: C₁, m, C₂, x, z, c, rfl, hm, ht, hx, hc, by simp, rfl⟩
    rw [Source.joined_cons] at h
    rcases List.append_eq_append_iff.1 h with ⟨p', rfl, h'⟩ | ⟨r, hr, h'⟩
    · exact behind p' rfl h'
    rcases r with _ | ⟨d, r⟩
    · exact behind [] (by simpa using hr.symm) (by simpa using h'.symm)
    obtain ⟨rfl, rfl⟩ := List.cons.inj h'
    have hmem : '\n' ∈ l.text := by simp [hr]
    cases hform with
    | blank hk h => exact absurd (List.all_eq_true.1 h _ hmem) (by decide)
    | lineBreak h => exact absurd (by rw [h]; rfl) hk
    | comment t h ht =>
      rw [h] at hmem
      simp [ht] at hmem
    | short hk h hlast => exact absurd hmem h
    | long hlong u c hc ht =>
      have hcbreak : c ≠ '\n' := by rintro rfl; rcases hc with hc | hc <;> exact absurd hc (by decide)
      have hctrim : isTrimmed c = false := by rcases hc with rfl | rfl <;> rfl
      rw [ht] at hr
      rcases p with _ | ⟨e, x⟩
      · exact absurd (List.cons.inj hr).1 hcbreak
      obtain ⟨rfl, hr⟩ := List.cons.inj hr
      rcases List.eq_nil_or_concat' r with rfl | ⟨z, d, rfl⟩
      · have hlast : c = '\n' := by
          simpa [List.getLast?_append, List.getLast?_cons] using congrArg List.getLast? hr
        exact absurd hlast hcbreak
      · have hd : c = d := by
          have := congrArg List.getLast? hr
          simpa [List.getLast?_append, List.getLast?_cons] using this
        subst hd
        refine ⟨[], l, C, c :: x, z, c, rfl, hlong, ?_, by simp, hctrim, by simp, by simp⟩
        rw [ht, hr]

section Run

variable (htokens : tokenize n = .ok ts) (hlex : lex n = A ++ (C ++ lineBreak :: B))
  (hC : ∀ l ∈ C, l.kind ≠ .newline ∧ l.Form)

include htokens hlex hC in
lemma isInside_of_break (h : joined C = p ++ '\n' :: q) : isInside (keptSpans ts) ((joined A).width + p.width) ∧
    isInside (keptSpans ts) ((joined A).width + (p ++ ['\n']).width) ∧ trimBlanks q ≠ [] := by
  obtain ⟨C₁, l, C₂, x, z, c, rfl, hk, ht, hx, hc, rfl, rfl⟩ := exists_long hC h
  have hlex' : lex n = (A ++ C₁) ++ l :: (C₂ ++ lineBreak :: B) := by rw [hlex]; simp
  have hbreak : '\n' ∈ l.text := by simp [ht]
  have hin := isInside_of_long htokens hlex' hk hbreak ht hx (by simp)
  have hbehind := isInside_of_long (p := x ++ ['\n']) (q := z ++ [c]) htokens hlex' hk hbreak (by simp [ht]) (by simp)
    (by simp)
  rw [Source.joined_append, Text.width_append, Nat.add_assoc, ← Text.width_append] at hin hbehind
  rw [List.append_assoc]
  exact ⟨hin, hbehind, trimBlanks_ne_nil (c := c) (by simp) hc⟩

include htokens hlex hC in
/-- The lines behind one that ends inside a literal or a comment. -/
lemma layoutLines_behind_break (h : joined C = p ++ '\n' :: q) :
    layoutLines (keptSpans ts) ((joined A).width + (p ++ ['\n']).width) false false (physicalLines (q ++ '\n' :: y)) =
      trimBlanks q ++ '\n' ::
        layoutLines (keptSpans ts) ((joined A).width + (joined C).width + 1) false false (physicalLines y) := by
  induction hk : q.length using Nat.strong_induction_on generalizing p q with
  | _ k ih =>
  obtain ⟨-, hin, hne⟩ := isInside_of_break htokens hlex hC h
  by_cases hq : '\n' ∈ q
  · obtain ⟨(a : Text), (b : Text), rfl, ha⟩ := List.eq_append_cons_of_mem hq
    have h' : joined C = (p ++ '\n' :: a) ++ '\n' :: b := by rw [h]; simp
    obtain ⟨hin', -, hne'⟩ := isInside_of_break htokens hlex hC h'
    have hoffset : (joined A).width + (p ++ ['\n']).width + a.width = (joined A).width + (p ++ '\n' :: a).width := by
      simp only [Text.width_append, Text.width_cons, Text.width_nil]
      omega
    have hnext : (joined A).width + (p ++ '\n' :: a).width + 1 = (joined A).width + ((p ++ '\n' :: a) ++ ['\n']).width := by
      rw [Text.width_append (p ++ '\n' :: a)]
      rfl
    rw [List.append_assoc, List.cons_append, physicalLines_append ha, layoutLines, hoffset, if_pos hin', hnext]
    rw [ih b.length (by rw [← hk]; simp; omega) h' rfl, ← List.singleton_append (l := b), trimBlanks_append (s := a)]
    · rw [trimBlanks_append (s := ['\n']) hne']
      simp
    · rw [trimBlanks_append (s := ['\n']) hne']
      simp
  · have hout : isInside (keptSpans ts) ((joined A).width + (joined C).width) = false := by
      have := not_isInside (A := A ++ C) (B := lineBreak :: B) htokens (by rw [hlex, List.append_assoc])
      rwa [Source.joined_append, Text.width_append] at this
    have hwidth : (joined A).width + (p ++ ['\n']).width + q.width = (joined A).width + (joined C).width := by
      rw [h]
      simp only [Text.width_append, Text.width_cons, Text.width_nil]
      omega
    rw [physicalLines_append hq, layoutLines, hwidth, if_neg (by simp [hout]), if_neg (by simp [hne])]

include htokens hlex hC in
/-- What is between two line breaks of the code is laid out as one line. -/
lemma layoutLines_run (afterBlank first : Bool) :
    layoutLines (keptSpans ts) (joined A).width afterBlank first (physicalLines (joined C ++ '\n' :: y)) =
    if trimBlanks (joined C) = [] then
      if afterBlank || first then
        layoutLines (keptSpans ts) ((joined A).width + (joined C).width + 1) true first (physicalLines y)
      else '\n' :: layoutLines (keptSpans ts) ((joined A).width + (joined C).width + 1) true false (physicalLines y)
    else trimBlanks (joined C) ++ '\n' ::
      layoutLines (keptSpans ts) ((joined A).width + (joined C).width + 1) false false (physicalLines y) := by
  have hbefore : isInside (keptSpans ts) (joined A).width = false := not_isInside htokens hlex
  by_cases hbreak : '\n' ∈ joined C
  · obtain ⟨(p : Text), (q : Text), h, hp⟩ := List.eq_append_cons_of_mem hbreak
    obtain ⟨hin, -, hne⟩ := isInside_of_break htokens hlex hC h
    have hnext : (joined A).width + p.width + 1 = (joined A).width + (p ++ ['\n']).width := by
      rw [Text.width_append]
      rfl
    have htrim : trimBlanks (joined C) = p ++ '\n' :: trimBlanks q := by
      rw [h, ← List.singleton_append (l := q), trimBlanks_append, trimBlanks_append hne]
      · simp
      · rw [trimBlanks_append hne]
        simp
    rw [if_neg (by simp [htrim]), htrim]
    have hlines : physicalLines (joined C ++ '\n' :: y) = p :: physicalLines (q ++ '\n' :: y) := by
      rw [h, List.append_assoc, List.cons_append, physicalLines_append hp]
    rw [hlines, layoutLines, if_pos hin, hnext, layoutLines_behind_break htokens hlex hC h]
    simp
  · have hout : isInside (keptSpans ts) ((joined A).width + (joined C).width) = false := by
      have := not_isInside (A := A ++ C) (B := lineBreak :: B) htokens (by rw [hlex, List.append_assoc])
      rwa [Source.joined_append, Text.width_append] at this
    rw [physicalLines_append hbreak, layoutLines, if_neg (by simp [hout])]
    simp [hbefore]

end Run

/-! ### The lexemes of a line -/

lemma isLexed_text_ne_nil (h : IsLexed L) (hl : l ∈ L) : l.text ≠ [] :=
  Source.text_ne_nil (s := joined L) (by rwa [h.1])

lemma isLexed_form (h : IsLexed L) (hl : l ∈ L) : l.Form :=
  Source.form_of_mem_lex (s := joined L) (by rwa [h.1]) (h.2 l hl)

/-- In front of a blank there is no lexeme that ends in one. -/
lemma not_isTrimmed_before_blank {t : Text} (h : IsLexed (C ++ ⟨.blank, t⟩ :: B)) (hC : ∀ l ∈ C, l.kind ≠ .newline) :
    ∀ x ∈ (joined C).getLast?, isTrimmed x = false := by
  intro x hx
  by_contra hblank
  rw [Bool.not_eq_false] at hblank
  have hx' := isBlank_of_isTrimmed hblank
  rcases List.eq_nil_or_concat' C with rfl | ⟨C, m, rfl⟩
  · cases hx
  have hne : m.text ≠ [] := isLexed_text_ne_nil h (by simp)
  have hlast : x ∈ m.text.getLast? := by
    rwa [Source.joined_append, Source.joined_cons, Source.joined_nil, List.append_nil, List.getLast?_append_of_ne_nil _ hne] at hx
  rw [List.append_assoc, List.singleton_append] at h
  obtain ⟨c, u, z, -, hm, ht, hz⟩ := Source.lex_cons_inv h.right.1
  obtain ⟨b, t', rfl⟩ := List.exists_cons_of_ne_nil (isLexed_text_ne_nil h.right (l := ⟨.blank, t⟩) (by simp))
  have hz' : z = b :: (t' ++ joined B) := by
    rw [← Source.joined_lex (s := z), hz]
    simp
  have hsep : m.separates z := by
    obtain ⟨k, v⟩ := m
    obtain rfl : v = c :: u := ht
    exact ((Source.munch_append_iff (h.2 _ (by simp))).1 hm).2
  have hb : Source.isBlank b := by
    have hall := Source.all_isBlank_of_lex (IsLexed.right (A := [m]) h.right).1
    rw [List.all_cons, Bool.and_eq_true] at hall
    exact hall.1
  cases isLexed_form h (l := m) (by simp) with
  | blank hk htext =>
    simp [Source.Lexeme.separates, hk, hz', hb] at hsep
  | lineBreak e => exact hC m (by simp) (by rw [e]; rfl)
  | comment v e hv =>
    simp only [Source.Lexeme.separates, e, hz'] at hsep
    obtain rfl : b = '\n' := by simpa using hsep
    cases hb
  | long hk v c hc htext =>
    rw [htext, List.getLast?_cons, List.getLast?_append] at hlast
    rcases hc with rfl | rfl <;> simp at hlast <;> subst hlast <;> exact absurd hblank (by decide)
  | short hk hv hend =>
    rw [hend x hlast] at hx'
    cases hx'

/-- What layout leaves of a line is the text of what tidying leaves of its lexemes. -/
lemma exists_tidied_run (hlexed : IsLexed (C ++ lineBreak :: B)) (hC : ∀ l ∈ C, l.kind ≠ .newline) :
    ∃ X, joined X = trimBlanks (joined C) ∧ (∀ l ∈ X, l.kind ≠ .newline) ∧
      (∀ B', TidiedTo (C ++ lineBreak :: B') (X ++ lineBreak :: B')) ∧
      (trimBlanks (joined C) = [] → X = [] ∧ ∀ l ∈ C, l.kind = .blank) := by
  rcases List.eq_nil_or_concat' C with rfl | ⟨C, l, rfl⟩
  · exact ⟨[], rfl, hC, fun _ => .refl, fun _ => ⟨rfl, by simp⟩⟩
  have h : IsLexed (C ++ l :: lineBreak :: B) := by rwa [List.append_assoc, List.singleton_append] at hlexed
  have hjoined : joined (C ++ [l]) = joined C ++ l.text := by simp
  have hne : l.text ≠ [] := isLexed_text_ne_nil h (by simp)
  have hline : ∀ m : Lexeme, m.kind ≠ .newline → ∀ k ∈ C ++ [m], k.kind ≠ .newline := by
    intro m hm k hk
    rcases List.mem_append.1 hk with hk | hk
    · exact hC k (by simp [hk])
    · rw [List.mem_singleton.1 hk]
      exact hm
  have hcons : ∀ {t : Text}, t ≠ [] → joined C ++ t ≠ [] := fun h => List.append_ne_nil_of_right_ne_nil _ h
  obtain ⟨t, w, ht, hw, -, hlast⟩ := exists_trimBlanks l.text
  have hblank : w.all Source.isBlank :=
    List.all_eq_true.2 fun x hx => isBlank_of_isTrimmed (List.all_eq_true.1 hw x hx)
  have htrim : trimBlanks (joined (C ++ [l])) = trimBlanks (joined C ++ t) := by
    rw [hjoined, ht, ← List.append_assoc, trimBlanks_append_of_all hw]
  have hkeep : t ≠ [] → trimBlanks (joined (C ++ [l])) = joined C ++ t := fun hne => by
    rw [htrim, trimBlanks_eq_of_last]
    rwa [List.getLast?_append_of_ne_nil _ hne]
  -- the last lexeme may become a shorter one
  have shorten : ∀ m : Lexeme, m.text = t → t ≠ [] → m.kind ≠ .newline → Source.Tightened [l] [m] →
      ∃ X, joined X = trimBlanks (joined (C ++ [l])) ∧ (∀ l ∈ X, l.kind ≠ .newline) ∧
        (∀ B', TidiedTo (C ++ [l] ++ lineBreak :: B') (X ++ lineBreak :: B')) ∧
        (trimBlanks (joined (C ++ [l])) = [] → X = [] ∧ ∀ k ∈ C ++ [l], k.kind = .blank) := by
    intro m hm hne hkind htight
    refine ⟨C ++ [m], by rw [hkeep hne, ← hm]; simp, hline m hkind, fun B' => ?_, fun h => ?_⟩
    · rw [List.append_assoc, List.append_assoc]
      exact .single (.here C B' htight)
    · rw [hkeep hne] at h
      exact absurd h (hcons hne)
  rcases List.eq_nil_or_concat' w with rfl | ⟨w, x, rfl⟩
  · -- nothing is trimmed
    rw [List.append_nil] at ht
    subst ht
    refine ⟨C ++ [l], by rw [hkeep hne, hjoined], hC, fun _ => .refl, fun h => ?_⟩
    rw [hkeep hne] at h
    exact absurd h (hcons hne)
  have hx : Source.isBlank x := by simpa using List.all_eq_true.1 hblank x (by simp)
  have hlasttext : x ∈ l.text.getLast? := by rw [ht]; simp
  cases isLexed_form h (l := l) (by simp) with
  | lineBreak e => exact absurd (by rw [e]; rfl) (hC l (by simp))
  | short hk hv hend =>
    rw [hend x hlasttext] at hx
    cases hx
  | long hk v c hc htext =>
    rw [htext, List.getLast?_cons, List.getLast?_append] at hlasttext
    rcases hc with rfl | rfl <;> simp at hlasttext <;> subst hlasttext <;> exact absurd hx (by decide)
  | comment v e hv =>
    obtain ⟨t', rfl, rfl⟩ : ∃ t', t = '/' :: '/' :: t' ∧ v = t' ++ (w ++ [x]) := by
      have hslash : '/' ∉ w ++ [x] := fun h => absurd (List.all_eq_true.1 hblank _ h) (by decide)
      have htext : '/' :: '/' :: v = t ++ (w ++ [x]) := by rw [← ht, e]
      rcases t with _ | ⟨b, _ | ⟨b', t'⟩⟩
      · exact absurd (by rw [List.nil_append] at htext; simp [← htext]) hslash
      · exact absurd (by rw [List.singleton_append] at htext; simp [← (List.cons.inj htext).2]) hslash
      · simp only [List.cons_append, List.cons.injEq] at htext
        obtain ⟨rfl, rfl, htext⟩ := htext
        exact ⟨t', rfl, htext⟩
    subst e
    exact shorten ⟨.lineComment, '/' :: '/' :: t'⟩ rfl (by simp) (by simp) (.comment t' _ hw)
  | blank hk hall =>
    obtain ⟨k, v⟩ := l
    obtain rfl : k = .blank := hk
    obtain rfl : v = t ++ (w ++ [x]) := ht
    rcases t with _ | ⟨b, t⟩
    · have hbefore := not_isTrimmed_before_blank h fun m hm => hC m (by simp [hm])
      have hempty : trimBlanks (joined (C ++ [⟨.blank, [] ++ (w ++ [x])⟩])) = joined C := by
        rw [htrim, List.append_nil, trimBlanks_eq_of_last hbefore]
      refine ⟨C, hempty.symm, fun m hm => hC m (by simp [hm]), fun B' => ?_, fun h => ?_⟩
      · rw [List.append_assoc]
        exact .single (.here C B' (.blank _))
      · rw [hempty] at h
        obtain rfl : C = [] := by
          rcases C with _ | ⟨m, C⟩
          · rfl
          · exact absurd (List.append_eq_nil_iff.1 h).1 (isLexed_text_ne_nil hlexed (by simp))
        exact ⟨rfl, by simp⟩
    · exact shorten ⟨.blank, b :: t⟩ rfl (by simp) (by simp) (.blanks (b :: t) _ (by simp) hblank)

/-! ### Line by line -/

/-- Whether lexemes end with a line break, if there are any. -/
def EndsLine (L : List Lexeme) : Prop := ∀ l ∈ L.getLast?, l = lineBreak

/-- What stands in front of the first line break of the code, and what stands behind it. -/
lemma exists_run (hL : IsLexed L) (hend : EndsLine L) (hne : L ≠ []) :
    ∃ C B, L = C ++ lineBreak :: B ∧ (∀ l ∈ C, l.kind ≠ .newline) ∧ EndsLine B := by
  have hmem : lineBreak ∈ L := by
    rcases List.eq_nil_or_concat' L with rfl | ⟨M, l, rfl⟩
    · exact absurd rfl hne
    · obtain rfl : l = lineBreak := hend l (by simp)
      simp
  obtain ⟨C, B, rfl, hC⟩ := List.eq_append_cons_of_mem hmem
  refine ⟨C, B, rfl, fun l hl hk => ?_, fun l hl => hend l ?_⟩
  · cases isLexed_form hL (l := l) (by simp [hl]) with
    | blank hk' h => rw [hk] at hk'; cases hk'
    | lineBreak e => exact hC (e ▸ hl)
    | comment t e ht => rw [e] at hk; cases hk
    | long hk' u c hc ht => rw [hk] at hk'; rcases hk' with hk' | hk' <;> cases hk'
    | short hk' h hlast => exact hk' hk
  · rw [List.getLast?_append, List.getLast?_cons]
    rw [Option.mem_def] at hl
    simp [hl]

/-- Whether lexemes are lines as layout leaves them: no line ends in blanks, and empty lines stand alone.  The flag tells
whether an empty line may come first. -/
inductive AreLines : Bool → List Lexeme → Prop
  | nil {b : Bool} : AreLines b []
  | line {b : Bool} {X L : List Lexeme} (hX : ∀ l ∈ X, l.kind ≠ .newline) (hne : joined X ≠ [])
      (htrim : trimBlanks (joined X) = joined X) (h : AreLines true L) : AreLines b (X ++ lineBreak :: L)
  | empty {L : List Lexeme} (h : AreLines false L) : AreLines true (lineBreak :: L)

/-- Whether lexemes are blanks and line breaks. -/
def AreBlank (L : List Lexeme) : Prop := ∀ l ∈ L, l.kind = .blank ∨ l = lineBreak

lemma width_joined_line : (joined A).width + (joined C).width + 1 = (joined (A ++ (C ++ [lineBreak]))).width := by
  rw [Source.joined_append, Source.joined_append, Text.width_append, Text.width_append, Nat.add_assoc]
  rfl

/-- Behind a line with text the lines lose white space in front of line breaks; behind an empty line the line break in front
of them counts as well; and at the beginning blank lines go. -/
theorem layoutLines_tidied (htokens : tokenize n = .ok ts) (hn : isWhole n) (hlex : lex n = A ++ L) (hend : EndsLine L) :
    (∃ L', layoutLines (keptSpans ts) (joined A).width false false (physicalLines (joined L)) = joined L' ∧
      AreLines true L' ∧ TidiedTo L L') ∧
    (∃ L', layoutLines (keptSpans ts) (joined A).width true false (physicalLines (joined L)) = joined L' ∧
      AreLines false L' ∧ TidiedTo (lineBreak :: L) (lineBreak :: L')) ∧
    ∀ afterBlank, ∃ lead M L', L = lead ++ M ∧ AreBlank lead ∧
      layoutLines (keptSpans ts) (joined A).width afterBlank true (physicalLines (joined L)) = joined L' ∧
      AreLines false L' ∧ TidiedTo M L' := by
  induction hk : L.length using Nat.strong_induction_on generalizing A L with
  | _ k ih =>
  have hL : IsLexed L := IsLexed.right (A := A) (hlex ▸ Source.isLexed_lex hn)
  by_cases hne : L = []
  · subst hne
    exact ⟨⟨[], rfl, .nil, .refl⟩, ⟨[], rfl, .nil, .refl⟩, fun _ => ⟨[], [], [], rfl, by simp [AreBlank], rfl, .nil, .refl⟩⟩
  obtain ⟨C, B, rfl, hC, hB⟩ := exists_run hL hend hne
  have hjoined : joined (C ++ lineBreak :: B) = joined C ++ '\n' :: joined B := by simp [lineBreak]
  have hrun := layoutLines_run (y := joined B) htokens hlex fun l hl => ⟨hC l hl, isLexed_form hL (by simp [hl])⟩
  simp only [width_joined_line] at hrun
  obtain ⟨⟨B₁, h₁, hB₁, ht₁⟩, ⟨B₂, h₂, hB₂, ht₂⟩, h₃⟩ := ih B.length (by rw [← hk]; simp; omega)
    (A := A ++ (C ++ [lineBreak])) (L := B) (by rw [hlex]; simp) hB rfl
  obtain ⟨X, hX, hXline, htidy, hblank⟩ := exists_tidied_run hL hC
  simp only [hjoined, hrun, h₁, h₂]
  by_cases hempty : trimBlanks (joined C) = []
  · obtain ⟨rfl, hCblank⟩ := hblank hempty
    simp only [if_pos hempty, Bool.or_true, Bool.or_false, if_true]
    refine ⟨⟨lineBreak :: B₂, rfl, .empty hB₂, (htidy B).trans ht₂⟩, ⟨B₂, rfl, hB₂, ?_⟩, fun _ => ?_⟩
    · have hline : Tidied (lineBreak :: lineBreak :: B) (lineBreak :: B) := .here [] B .line
      exact (((htidy B).append_left [lineBreak]).tail hline).trans ht₂
    · obtain ⟨lead, M, L', rfl, hlead, hM, hL', ht⟩ := h₃ true
      refine ⟨C ++ lineBreak :: lead, M, L', by simp, ?_, hM, hL', ht⟩
      simp only [AreBlank, List.mem_append, List.mem_cons]
      rintro l (hl | rfl | hl)
      · exact .inl (hCblank l hl)
      · exact .inr rfl
      · exact hlead l hl
  · have hkeep : joined (X ++ lineBreak :: B₁) = trimBlanks (joined C) ++ '\n' :: joined B₁ := by
      rw [← hX]
      simp [lineBreak]
    have hlines : ∀ b, AreLines b (X ++ lineBreak :: B₁) := fun b =>
      .line hXline (by rw [hX]; exact hempty) (by rw [hX, trimBlanks_trimBlanks]) hB₁
    have htotal : TidiedTo (C ++ lineBreak :: B) (X ++ lineBreak :: B₁) := by
      have hB' : TidiedTo (X ++ lineBreak :: B) (X ++ lineBreak :: B₁) := by
        simpa using ht₁.append_left (X ++ [lineBreak])
      exact (htidy B).trans hB'
    simp only [if_neg hempty]
    exact ⟨⟨_, hkeep.symm, hlines _, htotal⟩, ⟨_, hkeep.symm, hlines _, htotal.append_left [lineBreak]⟩,
      fun _ => ⟨[], _, _, rfl, by simp [AreBlank], hkeep.symm, hlines _, htotal⟩⟩

/-! ### The whole text -/

lemma endWithBreak_append (h : ∀ x ∈ s.getLast?, x ≠ '\n') : endWithBreak (s ++ ['\n']) = s ++ ['\n'] := by
  rcases List.eq_nil_or_concat' s with rfl | ⟨t, x, rfl⟩
  · rfl
  · have hx : x ≠ '\n' := h x (by simp)
    simp [endWithBreak, hx]

lemma endWithBreak_doubled : endWithBreak (s ++ ['\n', '\n']) = endWithBreak (s ++ ['\n']) := by
  simp [endWithBreak]

/-- Only the line break ends in one. -/
lemma last_ne_break (hL : IsLexed L) (hl : l ∈ L) (hne : l ≠ lineBreak) : '\n' ∉ l.text.getLast? := by
  intro hlast
  have hmem := List.mem_of_getLast? hlast
  cases isLexed_form hL hl with
  | blank hk h => exact absurd (List.all_eq_true.1 h _ hmem) (by decide)
  | lineBreak e => exact hne e
  | comment t e ht =>
    rw [e] at hmem
    simp [ht] at hmem
  | short hk h hlast => exact h hmem
  | long hk u c hc ht =>
    rw [ht, List.getLast?_cons, List.getLast?_append] at hlast
    rcases hc with rfl | rfl <;> simp at hlast

lemma endsLine_lex (hs : isWhole s) (h : s.getLast? = some '\n') : EndsLine (lex s) := by
  intro l hl
  by_contra hne
  obtain ⟨L, hlex⟩ := List.getLast?_eq_some_iff.1 hl
  have hlexed := Source.isLexed_lex hs
  refine last_ne_break hlexed (l := l) (by rw [hlex]; simp) hne ?_
  have htext := isLexed_text_ne_nil hlexed (l := l) (by rw [hlex]; simp)
  rw [← Source.joined_lex (s := s), hlex, Source.joined_append, Source.joined_cons, Source.joined_nil, List.append_nil,
    List.getLast?_append_of_ne_nil _ htext] at h
  exact h

lemma AreLines.dropLast {b : Bool} (h : AreLines b (L ++ [lineBreak])) (hend : EndsLine L) : AreLines b L := by
  generalize hM : L ++ [lineBreak] = M at h
  induction h generalizing L with
  | nil => simp at hM
  | @line b X N hX hne htrim h ih =>
    rcases List.eq_nil_or_concat' N with rfl | ⟨N, m, rfl⟩
    · obtain ⟨rfl, -⟩ := List.append_inj' hM rfl
      rcases List.eq_nil_or_concat' L with rfl | ⟨L, l, rfl⟩
      · exact absurd rfl hne
      · exact absurd rfl (hX lineBreak (by simp [hend l (by simp)]))
    · rw [← List.cons_append, ← List.append_assoc] at hM
      obtain ⟨rfl, hm⟩ := List.append_inj' hM rfl
      rw [← (List.cons.inj hm).1] at ih
      refine .line hX hne htrim (ih (fun l hl => hend l ?_) rfl)
      rw [List.getLast?_append, List.getLast?_cons, hl]
      rfl
  | @empty N h ih =>
    rcases L with _ | ⟨l, L⟩
    · exact .nil
    · obtain ⟨rfl, rfl⟩ := List.cons.inj hM
      refine .empty (ih (fun l hl => hend l ?_) rfl)
      rw [List.getLast?_cons, hl]
      rfl

/-- Of the line breaks at the end one stays. -/
lemma exists_endWithBreak {b : Bool} (hL : IsLexed L) (hlines : AreLines b L) (hend : EndsLine L) (hne : L ≠ []) :
    ∃ L', endWithBreak (joined L) = joined L' ∧ AreLines b L' ∧ TidiedTo L L' := by
  induction hk : L.length using Nat.strong_induction_on generalizing L with
  | _ k ih =>
  rcases List.eq_nil_or_concat' L with rfl | ⟨M, l, rfl⟩
  · exact absurd rfl hne
  obtain rfl : l = lineBreak := hend l (by simp)
  have hjoined : ∀ M, joined (M ++ [lineBreak]) = joined M ++ ['\n'] := fun M => by simp [lineBreak]
  rcases List.eq_nil_or_concat' M with rfl | ⟨M, m, rfl⟩
  · exact ⟨[lineBreak], rfl, hlines, .refl⟩
  by_cases hm : m = lineBreak
  · subst hm
    have hlexed : IsLexed (M ++ [lineBreak]) := hL.left
    have hM : EndsLine (M ++ [lineBreak]) := by simp [EndsLine]
    obtain ⟨L', hL', hlines', ht⟩ := ih (M ++ [lineBreak]).length (by rw [← hk]; simp) hlexed (hlines.dropLast hM) hM (by simp) rfl
    refine ⟨L', ?_, hlines', ?_⟩
    · rw [hjoined, hjoined, List.append_assoc, ← hL', hjoined]
      exact endWithBreak_doubled
    · have : Tidied (M ++ [lineBreak] ++ [lineBreak]) (M ++ [lineBreak]) := by
        rw [List.append_assoc]
        exact .here M [] .line
      exact ReflTransGen.head this ht
  · refine ⟨_, ?_, hlines, .refl⟩
    rw [hjoined]
    refine endWithBreak_append fun x hx => ?_
    rintro rfl
    have htext := isLexed_text_ne_nil hL (l := m) (by simp)
    have hlast : '\n' ∈ m.text.getLast? := by
      rwa [Source.joined_append, Source.joined_cons, Source.joined_nil, List.append_nil,
        List.getLast?_append_of_ne_nil _ htext] at hx
    exact last_ne_break hL (l := m) (by simp) hm hlast

/-- A text with a line break at its end. -/
def closed (s : Text) : Text := if s.getLast? = some '\n' then s else s ++ ['\n']

lemma physicalLines_closed (hne : s ≠ []) : physicalLines (closed s) = physicalLines s := by
  unfold closed
  split
  · rfl
  next h =>
  induction hk : s.length using Nat.strong_induction_on generalizing s with
  | _ k ih =>
  by_cases hs : '\n' ∈ s
  · obtain ⟨(a : Text), (b : Text), rfl, ha⟩ := List.eq_append_cons_of_mem hs
    have hb : b ≠ [] := by
      rintro rfl
      simp at h
    rw [List.append_assoc, List.cons_append, physicalLines_append ha, physicalLines_append ha,
      ih b.length (by rw [← hk]; simp; omega) hb ?_ rfl]
    rwa [List.getLast?_append_of_ne_nil _ (by simp), List.getLast?_cons_of_ne_nil hb] at h
  · rw [physicalLines_append hs, physicalLines_last hs hne, physicalLines_nil]

lemma tokenize_closed (h : tokenize s = .ok ts) : ∃ ts', tokenize (closed s) = .ok ts' ∧ keptSpans ts' = keptSpans ts := by
  unfold closed
  split
  · exact ⟨ts, h, rfl⟩
  obtain ⟨hw, hb, rfl⟩ := Source.tokenize_eq_ok_iff.1 h
  have hlex : lex (s ++ ['\n']) = lex s ++ [lineBreak] := by
    rw [Source.lex_append_newline hw, Source.lex_nil]
    rfl
  refine ⟨_, Source.tokenize_eq_ok_iff.2 ⟨?_, ?_, rfl⟩, ?_⟩
  · rw [isWhole, hlex, List.all_append, show (lex s).all Lexeme.isSound = true from hw]
    rfl
  · rw [hlex, Source.isBalanced_append hb]
    rfl
  · have htokens : tokens (s ++ ['\n']) = tokens s ++ [⟨.newline, ['\n'], s.width⟩] := by
      rw [tokens, hlex, Source.place_append, Source.joined_lex, Nat.zero_add]
      rfl
    rw [htokens, List.filter_append, keptSpans, List.filter_append, List.map_append]
    simp [keptSpans]

lemma exists_significant {tree : Source.Tree} (h : Source.parse s = .ok tree) : ∃ l ∈ lex s, l.kind.isSignificant := by
  obtain ⟨-, -, package, c, is, c', ds, hclause, -⟩ := Source.parse_eq_ok h
  obtain ⟨keyword, name, d, hread, hkind, -⟩ := Source.packageClause_eq_ok hclause
  have hmem : keyword ∈ (Source.Cursor.mk 0 (Source.statementTokens s)).pastSemis.ahead := by
    rw [hread.ahead]
    simp
  have htoken := Source.mem_tokens_of_mem_statementTokens (Source.pastSemis_suffix.mem hmem) (by rw [hkind]; decide)
  exact ⟨keyword.lexeme, Source.lexeme_mem_lex htoken, by rw [Source.Token.lexeme_kind, hkind]; rfl⟩

lemma lex_closed (h : isWhole s) : lex (closed s) = lex s ∨ lex (closed s) = lex s ++ [lineBreak] := by
  unfold closed
  split
  · exact .inl rfl
  · rw [Source.lex_append_newline h, Source.lex_nil]
    exact .inr rfl

/-- The text with single characters for line breaks. -/
def unixText (s : Text) : Text := Text.replaceAll "\r\n" "\n" s

/-- What is laid out is well formed. -/
lemma exists_of_layout {out : Text} (h : layout s = .ok out) :
    ∃ tree ts, Source.parse (unixText s) = .ok tree ∧ tokenize (unixText s) = .ok ts ∧
      out = endWithBreak (layoutLines (keptSpans ts) 0 false true (physicalLines (unixText s))) := by
  unfold layout at h
  unfold unixText
  dsimp only at h
  split at h
  · cases h
  · cases h
  next tree ts htree htokens =>
  cases h
  exact ⟨tree, ts, htree, htokens, rfl⟩

/-- **What layout leaves.**  Behind white space at the beginning, the lexemes of a text that is laid out are those of the text
with less white space in front of line breaks.  No line ends in blanks, and empty lines stand alone and not at the beginning. -/
theorem layout_eq_ok {out : Text} (h : layout s = .ok out) :
    isWhole (unixText s) ∧ ∃ lead M, lex (closed (unixText s)) = lead ++ M ∧ AreBlank lead ∧ TidiedTo M (lex out) ∧
      AreLines false (lex out) ∧ isWhole out := by
  obtain ⟨tree, ts, htree, htokens, rfl⟩ := exists_of_layout h
  clear h
  generalize unixText s = n at htree htokens ⊢
  obtain ⟨l, hl, hsignificant⟩ := exists_significant htree
  have hn := (Source.tokenize_eq_ok_iff.1 htokens).1
  have hne : n ≠ [] := by
    rintro rfl
    simp at hl
  obtain ⟨ts', htokens', hspans⟩ := tokenize_closed htokens
  have hclosed := (Source.tokenize_eq_ok_iff.1 htokens').1
  have hlexed := Source.isLexed_lex hclosed
  have hend : EndsLine (lex (closed n)) := by
    refine endsLine_lex hclosed ?_
    unfold closed
    split
    · assumption
    · simp
  obtain ⟨-, -, hlines⟩ := layoutLines_tidied (A := []) htokens' hclosed rfl hend
  obtain ⟨lead, M, L', hlex, hlead, hL', hlines', ht⟩ := hlines false
  refine ⟨hn, lead, M, hlex, hlead, ?_⟩
  have hM : IsLexed M := IsLexed.right (A := lead) (hlex ▸ hlexed)
  obtain ⟨M₁, M₂, rfl⟩ : ∃ M₁ M₂, M = M₁ ++ l :: M₂ := by
    have hmem : l ∈ lead ++ M := by
      rw [← hlex]
      rcases lex_closed hn with e | e <;> rw [e] <;> simp [hl]
    refine List.append_of_mem ((List.mem_append.1 hmem).resolve_left fun hl => ?_)
    rcases hlead l hl with e | rfl
    · rw [e] at hsignificant
      cases hsignificant
    · cases hsignificant
  obtain ⟨L₁, L₂, rfl, -, -⟩ := ht.split hsignificant
  have hL'end : EndsLine (L₁ ++ l :: L₂) := fun m hm => by
    rw [ht.getLast?_eq] at hm
    refine hend m ?_
    rw [hlex, List.getLast?_append_of_ne_nil _ (by simp)]
    exact hm
  obtain ⟨L'', hL'', hlines'', ht'⟩ := exists_endWithBreak (ht.isLexed hM) hlines' hL'end (by simp)
  have hout : endWithBreak (layoutLines (keptSpans ts) 0 false true (physicalLines n)) = joined L'' := by
    rw [← hL'', ← hL', ← hspans, Source.joined_lex, physicalLines_closed hne]
    rfl
  have hlexed' : IsLexed L'' := ht'.isLexed (ht.isLexed hM)
  rw [hout, hlexed'.1]
  exact ⟨ht.trans ht', hlines'', hlexed'.isWhole⟩

end RuleWeaver
