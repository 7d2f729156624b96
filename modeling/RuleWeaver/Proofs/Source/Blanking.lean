import RuleWeaver.Proofs.Source.Tidying

/-!
# What blanking leaves

Blanking its comments leaves the other tokens of a text where they are, in any text (`tokens_commentsBlanked`): a comment ends
the lexeme in front of it as a blank does, and neither a literal that is not closed nor a block comment that is not closed reaches
over a comment.  What has no white space and is found in the blanked text stands there between comments
(`infix_joined_of_codeOf`, `infix_codeOf_of_comment`).
-/

namespace RuleWeaver

open Source

variable {s a b w x : Text} {c d : Char} {l : Lexeme} {ls xs ys : List Lexeme}

/-! ### Texts without a separator -/

lemma Text.prefix_of_prefix_append_cons (h : x <+: a ++ d :: b) (hd : d ∉ x) : x <+: a := by
  obtain ⟨v, hcut⟩ := h
  rcases List.append_eq_append_iff.1 hcut with ⟨w, ha, -⟩ | ⟨w, rfl, hbehind⟩
  · exact ⟨w, ha.symm⟩
  · rcases w with _ | ⟨e, w⟩
    · exact ⟨[], by rw [List.append_nil, List.append_nil]⟩
    · obtain ⟨rfl, -⟩ := List.cons.inj hbehind
      exact absurd (List.mem_append_right a List.mem_cons_self) hd

lemma Text.infix_of_infix_append_cons (h : x <:+: a ++ d :: b) (hd : d ∉ x) : x <:+: a ∨ x <:+: b := by
  obtain ⟨u, v, hcut⟩ := h
  rw [List.append_assoc] at hcut
  rcases List.append_eq_append_iff.1 hcut with ⟨w, rfl, hbehind⟩ | ⟨w, rfl, hbehind⟩
  · have hstart : x <+: w := Text.prefix_of_prefix_append_cons ⟨v, hbehind⟩ hd
    exact .inl (hstart.isInfix.trans (List.suffix_append u w).isInfix)
  · rcases w with _ | ⟨e, w⟩
    · rcases x with _ | ⟨e, x⟩
      · exact .inr List.nil_infix
      · obtain ⟨rfl, -⟩ := List.cons.inj hbehind
        exact absurd List.mem_cons_self hd
    · obtain ⟨rfl, rfl⟩ := List.cons.inj hbehind
      exact .inr ⟨w, v, List.append_assoc _ _ _⟩

lemma Text.infix_of_infix_append (hx : x ≠ []) (hw : ∀ c ∈ w, c ∉ x) (h : x <:+: w ++ b) : x <:+: b := by
  induction w with
  | nil => exact h
  | cons c w ih =>
    obtain ⟨hc, hw⟩ := List.forall_mem_cons.1 hw
    rcases Text.infix_of_infix_append_cons (a := []) h hc with h | h
    · exact absurd (List.eq_nil_of_infix_nil h) hx
    · exact ih hw h

/-- Whether a text is a piece of a line without spaces. -/
def Text.IsUnspaced (x : Text) : Prop := x ≠ [] ∧ ' ' ∉ x ∧ '\n' ∉ x

lemma Text.IsUnspaced.not_mem_blanked (h : x.IsUnspaced) : ∀ c ∈ blanked s, c ∉ x := by
  intro c hc
  rcases mem_blanked hc with rfl | rfl
  · exact h.2.1
  · exact h.2.2

/-! ### What is found in the blanked text -/

lemma prefix_joined_of_codeOf (hx : x.IsUnspaced) (h : x <+: w ++ codeOf ls) : x <+: w ++ joined ls := by
  induction ls generalizing w with
  | nil => exact h
  | cons l ls ih =>
    rw [codeOf_cons] at h
    rw [joined_cons, ← List.append_assoc]
    by_cases hl : l.kind.isComment
    · -- what is there of a comment ends the piece
      rw [Lexeme.code, if_pos hl] at h
      rcases hblanked : blanked l.text with _ | ⟨c, t⟩
      · rw [hblanked, List.nil_append] at h
        have hnil : l.text = [] := Text.width_eq_zero_iff.1 (by rw [← width_blanked, hblanked]; rfl)
        rw [hnil, List.append_nil]
        exact ih h
      · rw [hblanked, List.cons_append] at h
        have hc : c ∉ x := hx.not_mem_blanked (s := l.text) c (by rw [hblanked]; exact List.mem_cons_self)
        rw [List.append_assoc]
        exact (Text.prefix_of_prefix_append_cons h hc).trans (List.prefix_append _ _)
    · rw [Lexeme.code, if_neg hl, ← List.append_assoc] at h
      exact ih h

/-- **A piece without spaces** that is found in the blanked text stands in the text. -/
lemma infix_joined_of_codeOf (hx : x.IsUnspaced) (h : x <:+: codeOf ls) : x <:+: joined ls := by
  obtain ⟨u, v, h⟩ := h
  rcases x with _ | ⟨c, x⟩
  · exact absurd rfl hx.1
  have hc : c ≠ ' ' ∧ c ≠ '\n' :=
    ⟨fun e => hx.2.1 (e ▸ List.mem_cons_self), fun e => hx.2.2 (e ▸ List.mem_cons_self)⟩
  rw [List.append_assoc, List.cons_append] at h
  obtain ⟨xs, l, ys, p, q, rfl, -, htext, -, hv⟩ := exists_lexeme_of_codeOf hc.1 hc.2 h.symm
  have hstart : c :: x <+: (c :: q) ++ codeOf ys := ⟨v, by rw [List.cons_append, List.cons_append, hv]⟩
  obtain ⟨v', hv'⟩ := prefix_joined_of_codeOf hx hstart
  refine ⟨joined xs ++ p, v', ?_⟩
  rw [List.append_assoc, hv', joined_append, joined_cons, htext]
  simp only [List.append_assoc, List.cons_append]

/-- A comment keeps what is in front of it and what is behind it apart. -/
lemma infix_codeOf_of_comment (hx : x.IsUnspaced) (hl : l.kind.isComment) (hne : l.text ≠ [])
    (h : x <:+: codeOf (xs ++ l :: ys)) : x <:+: codeOf xs ∨ x <:+: codeOf ys := by
  rw [codeOf_append, codeOf_cons, Lexeme.code, if_pos hl] at h
  rcases hblanked : blanked l.text with _ | ⟨c, t⟩
  · exact absurd (Text.width_eq_zero_iff.1 (by rw [← width_blanked, hblanked]; rfl)) hne
  · have hblank : ∀ d ∈ c :: t, d ∉ x := hblanked ▸ hx.not_mem_blanked
    obtain ⟨hc, ht⟩ := List.forall_mem_cons.1 hblank
    rw [hblanked, List.cons_append] at h
    exact (Text.infix_of_infix_append_cons h hc).imp_right (Text.infix_of_infix_append hx.1 ht)

namespace Source

open Text (run run_append_eq_length_iff)

variable {t u v y z : Text} {b mark : Char} {k : Kind} {n : Nat} {ts : List Token} {t' : Token}

/-! ### Lexemes with a fault -/

/-- The characters of a literal that is not closed: they go up to the end of the line, or of the text. -/
lemma quoted_append_open_iff : quoted mark (u ++ y) = (false, u.length) ↔
    quoted mark u = (false, u.length) ∧ y.head?.all (· = '\n') := by
  fun_induction quoted mark u with
  | case1 =>
    rcases y with _ | ⟨d, y⟩
    · simp [quoted]
    · fun_cases quoted mark (d :: y) <;> simp_all
  | case2 s => simp [quoted]
  | case3 =>
    rcases y with _ | ⟨d, y⟩
    · simp [quoted]
    · by_cases hd : d = '\n' <;> simp [quoted, hd]
  | case4 c s hn ih => simpa [Prod.ext_iff, quoted_escape hn] using ih
  | case5 s h₁ h₂ h₃ => simp [quoted]
  | case6 s h₁ h₂ h₃ h₄ =>
    have hm : mark ≠ '\\' := by
      rintro rfl
      rcases s with _ | ⟨d, s⟩
      · exact h₂ rfl rfl
      · exact h₃ d s rfl rfl
    simp [quoted_cons hm, h₄]
  | case7 c s h₁ h₂ h₃ h₄ h₅ ih =>
    have hc : c ≠ '\\' := by
      rintro rfl
      rcases s with _ | ⟨d, s⟩
      · exact h₂ rfl rfl
      · exact h₃ d s rfl rfl
    simpa [Prod.ext_iff, quoted_cons hc, h₄, h₅] using ih

/-- Text that begins no lexeme does not depend on what follows, but for the end of a line. -/
lemma munch_stray_append (h : munch c (u ++ y) = (.stray, u.length)) (hz : y.head?.all (· = '\n') → z.head? = y.head?) :
    munch c (u ++ z) = (.stray, u.length) := by
  cases munchForm c with
  | blank _ hf | number _ hf => simp [hf] at h
  | word _ hf =>
    rw [hf] at h
    exact absurd (congrArg Prod.fst h).symm (ne_wordKind rfl _)
  | single k _ hf =>
    rw [hf] at h ⊢
    exact h
  | quoted k hk hf =>
    have hopen : ∀ t, munchQuoted k c t = (.stray, u.length) ↔ quoted c t = (false, u.length) := by
      intro t
      have hne : k ≠ .stray := by rcases hk with rfl | rfl <;> simp
      simp only [munchQuoted, Prod.ext_iff]
      cases (quoted c t).1 <;> simp [hne]
    rw [hf, hopen, quoted_append_open_iff] at h
    rw [hf, hopen, quoted_append_open_iff, hz h.2]
    exact h
  | raw _ hf =>
    rw [hf, munchRaw] at h
    split at h
    · cases h
    · next hlt =>
      have hy : y = [] := by
        have hlength := congrArg Prod.snd h
        dsimp only at hlength
        rw [hlength, List.length_append, Nat.not_lt] at hlt
        exact List.length_eq_zero_iff.1 (by omega)
      subst hy
      obtain rfl : z = [] := List.head?_eq_none_iff.1 (hz rfl)
      rw [hf, munchRaw, if_neg hlt]
      exact h
  | dot _ hf =>
    rw [hf] at h
    split at h <;> cases h
  | slash _ hf =>
    rw [hf] at h
    rcases munchSlash_fst (y := u ++ y) with hk | hk | hk <;> rw [h] at hk <;> cases hk
  | operator _ hf =>
    rw [hf] at h
    rcases munchOperator_fst (c := c) (u := u ++ y) with hk | hk | hk | hk <;> rw [h] at hk <;> cases hk

lemma commentEnd?_eq_none_iff : commentEnd? s = none ↔ ¬ ['*', '/'] <:+: s := by
  induction s with
  | nil => simp [commentEnd?]
  | cons c s ih =>
    rw [commentEnd?_cons, List.infix_cons_iff, not_or, ← ih]
    by_cases hstart : c = '*' ∧ s.head? = some '/'
    · obtain ⟨rfl, hs⟩ := hstart
      obtain ⟨s, rfl⟩ := List.head?_eq_some_iff.1 hs
      simp
    · have hnot : ¬ ['*', '/'] <+: c :: s := by
        rintro ⟨t, ht⟩
        obtain ⟨rfl, rfl⟩ := List.cons.inj ht
        exact hstart ⟨rfl, rfl⟩
      simp [hstart, hnot]

lemma munchSlash_star_operator_iff : munchSlash ('*' :: y) = (.operator, n) ↔ run isOperatorChar ('*' :: y) = n ∧
    ∀ m, commentEnd? y = some m → m + 1 < n := by
  simp only [munchSlash]
  split
  · next m hm =>
    simp only [hm, Option.some.injEq, forall_eq']
    split
    · next hlt =>
      rw [Prod.mk.injEq, eq_self, true_and]
      exact ⟨fun h => ⟨h, h ▸ hlt⟩, And.left⟩
    · next hlt => exact iff_of_false (by simp) fun h => hlt (h.1 ▸ h.2)
  · next hm => simp [hm]

/-- A slash begins an operator if neither a line comment begins there nor a block comment that is as long. -/
lemma munchSlash_operator_iff : munchSlash (u ++ y) = (.operator, u.length) ↔ u.all isOperatorChar ∧
    y.head?.all (!isOperatorChar ·) ∧ u.head? ≠ some '/' ∧ ∀ v, u = '*' :: v → ∀ n, commentEnd? (v ++ y) = some n → n < v.length := by
  have other : ∀ {d : Char} {w : Text}, d ≠ '/' → d ≠ '*' → (munchSlash (d :: w) = (.operator, u.length) ↔
      run isOperatorChar (d :: w) = u.length) := fun h₁ h₂ => by
    rw [munchSlash_other h₁ h₂, Prod.mk.injEq, eq_self, true_and]
  rcases u with _ | ⟨d, u⟩
  · rcases y with _ | ⟨d, y⟩
    · simp [munchSlash, run]
    · by_cases hd : isOperatorChar d
      · have hpos := munchSlash_pos (y := y) hd
        refine iff_of_false (fun h => ?_) (by simp [hd])
        rw [List.nil_append] at h
        rw [h] at hpos
        exact absurd hpos (Nat.lt_irrefl _)
      · rw [List.nil_append, other (by rintro rfl; exact hd rfl) (by rintro rfl; exact hd rfl)]
        simp [run, hd]
  by_cases h₁ : d = '/'
  · simp [h₁, munchSlash_slash]
  by_cases h₂ : d = '*'
  · subst h₂
    rw [List.cons_append, munchSlash_star_operator_iff, ← List.cons_append, run_append_eq_length_iff, and_assoc]
    simp
  · rw [List.cons_append, other h₁ h₂, ← List.cons_append, run_append_eq_length_iff]
    simp [h₁, h₂]

/-- An operator stays when no operator follows, and no end of a comment does that was not there. -/
lemma munch_operator_append (h : munch c (u ++ y) = (.operator, u.length)) : y.head?.all (!isOperatorChar ·) ∧
    ∀ z : Text, z.head?.all (!isOperatorChar ·) → (∀ v : Text, ['*', '/'] <:+: v ++ z → ['*', '/'] <:+: v ++ y) →
      munch c (u ++ z) = (.operator, u.length) := by
  cases munchForm c with
  | blank _ hf | number _ hf => simp [hf] at h
  | word _ hf =>
    rw [hf] at h
    exact absurd (congrArg Prod.fst h).symm (ne_wordKind rfl _)
  | single k hk hf =>
    rw [hf] at h
    rw [(Prod.mk.inj h).1] at hk
    cases hk
  | quoted k hk hf =>
    rw [hf] at h
    rcases (munchQuoted_fst : (munchQuoted k c (u ++ y)).1 = k ∨ _) with e | e <;> rw [h] at e
    · rcases hk with rfl | rfl <;> cases e
    · cases e
  | raw _ hf =>
    rw [hf] at h
    rcases munchRaw_fst (u := u ++ y) with e | e <;> rw [h] at e <;> cases e
  | dot _ hf =>
    rw [hf] at h
    split at h <;> cases h
  | slash _ hf =>
    rw [hf, munchSlash_operator_iff] at h
    obtain ⟨hu, hy, hhead, hend⟩ := h
    refine ⟨hy, fun z hz hclose => ?_⟩
    rw [hf, munchSlash_operator_iff]
    refine ⟨hu, hz, hhead, fun v hv n hn => ?_⟩
    cases hy' : commentEnd? (v ++ y) with
    | none =>
      rw [commentEnd?_eq_none_iff] at hy'
      have hz' : commentEnd? (v ++ z) = none := commentEnd?_eq_none_iff.2 fun h => hy' (hclose v h)
      rw [hn] at hz'
      cases hz'
    | some m =>
      have hm := hend v hv m hy'
      have hsame := (commentEnd?_append (y := z) (Nat.le_of_lt hm)).2 ((commentEnd?_append (Nat.le_of_lt hm)).1 hy')
      obtain rfl : m = n := Option.some.inj (hsame.symm.trans hn)
      exact hm
  | operator _ hf =>
    rw [hf, munchOperator_append_iff] at h
    refine ⟨h.2, fun z hz _ => ?_⟩
    rw [hf, munchOperator_append_iff]
    exact ⟨h.1, hz⟩

/-! ### Tokens -/

/-- The line breaks in a text that stands at an offset. -/
def lineBreaks : Nat → Text → List Token
  | _, [] => []
  | n, c :: s => if c = '\n' then ⟨.newline, ['\n'], n⟩ :: lineBreaks (n + c.utf8Size) s else lineBreaks (n + c.utf8Size) s

/-- What is left of a token when comments are blanked. -/
def Token.uncommented (t : Token) : List Token := if t.kind.isComment then lineBreaks t.start t.text else [t]

lemma lineBreaks_append : lineBreaks n (s ++ t) = lineBreaks n s ++ lineBreaks (n + s.width) t := by
  induction s generalizing n with
  | nil => rfl
  | cons c s ih =>
    rw [List.cons_append, lineBreaks, lineBreaks, ih, Text.width_cons, Nat.add_assoc]
    split <;> rfl

lemma lineBreaks_eq_nil (h : '\n' ∉ s) : lineBreaks n s = [] := by
  induction s generalizing n with
  | nil => rfl
  | cons c s ih =>
    rw [List.mem_cons, not_or] at h
    rw [lineBreaks, if_neg (Ne.symm h.1), ih h.2]

/-- Blanking keeps line breaks where they are. -/
lemma lineBreaks_blanked : lineBreaks n (blanked s) = lineBreaks n s := by
  induction s generalizing n with
  | nil => rfl
  | cons c s ih =>
    have hwidth : Text.width (if c = '\n' then ['\n'] else List.replicate c.utf8Size ' ') = c.utf8Size := by
      have := width_blanked (s := [c])
      simpa [blanked] using this
    rw [blanked, List.flatMap_cons, lineBreaks_append, hwidth, ← blanked, ih, lineBreaks]
    split
    · next h => rw [h]; rfl
    · rw [lineBreaks_eq_nil (fun h => by cases (List.mem_replicate.1 h).2)]
      rfl

lemma filter_place_blanks (hb : w.all isBlank) (hy : y.head?.all (!isBlank ·)) :
    (place n (lex (w ++ y))).filter (·.kind ≠ .blank) = (place (n + w.width) (lex y)).filter (·.kind ≠ .blank) := by
  rcases w with _ | ⟨b, w⟩
  · rfl
  · rw [lex_blanks_append (List.cons_ne_nil _ _) hb hy, place_cons]
    rfl

/-- A blank in front of a text leaves its other tokens as they are. -/
lemma filter_place_blank (hb : isBlank b) : (place n (lex (b :: y))).filter (·.kind ≠ .blank) =
    (place (n + b.utf8Size) (lex y)).filter (·.kind ≠ .blank) := by
  -- the blanks that follow may make one lexeme with it
  have hall : (y.takeWhile isBlank).all isBlank := List.all_takeWhile
  have hend : (y.dropWhile isBlank).head?.all (!isBlank ·) := by
    have := List.head?_dropWhile_not isBlank y
    cases h : (y.dropWhile isBlank).head? <;> simp_all
  have hfront := filter_place_blanks (n := n) (w := b :: y.takeWhile isBlank) (by rw [List.all_cons, hb, hall]; rfl) hend
  have hback := filter_place_blanks (n := n + b.utf8Size) hall hend
  rw [List.cons_append, Text.width_cons, ← Nat.add_assoc] at hfront
  rw [List.takeWhile_append_dropWhile] at hfront hback
  exact hfront.trans hback.symm

lemma filter_place_gap (hw : ∀ c ∈ w, isBlank c ∨ c = '\n') : (place n (lex (w ++ y))).filter (·.kind ≠ .blank) =
    lineBreaks n w ++ (place (n + w.width) (lex y)).filter (·.kind ≠ .blank) := by
  induction w generalizing n with
  | nil => rfl
  | cons c w ih =>
    have ih := ih (n := n + c.utf8Size) fun d hd => hw d (List.mem_cons_of_mem _ hd)
    rw [List.cons_append, lineBreaks, Text.width_cons, ← Nat.add_assoc]
    rcases hw c List.mem_cons_self with hc | rfl
    · rw [filter_place_blank hc, ih, if_neg]
      rintro rfl
      cases hc
    · rw [lex_newline, place_cons, List.filter_cons_of_pos rfl, if_pos rfl, List.cons_append]
      exact congrArg _ ih

/-! ### Lexemes in front of comments -/

/-- Blanking changes nothing in front of the first comment, which begins with a blank then. -/
lemma exists_common_front (h : lex s = ls) :
    ∃ p q r, joined ls = p ++ q ∧ codeOf ls = p ++ r ∧ (r = [] ∨ ∃ y, r = ' ' :: y) := by
  induction ls generalizing s with
  | nil => exact ⟨[], [], [], rfl, rfl, .inl rfl⟩
  | cons l ls ih =>
    by_cases hc : l.kind.isComment
    · obtain ⟨u, hu⟩ := exists_comment (by rw [h]; exact List.mem_cons_self) hc
      refine ⟨[], joined (l :: ls), codeOf (l :: ls), rfl, rfl, .inr ?_⟩
      rw [codeOf_cons, Lexeme.code, if_pos hc, hu]
      exact ⟨_, rfl⟩
    · obtain ⟨p, q, r, hp, hr, hblank⟩ := ih (lex_joined_right (show lex s = [l] ++ ls from h))
      refine ⟨l.text ++ p, q, r, ?_, ?_, hblank⟩
      · rw [joined_cons, hp, List.append_assoc]
      · rw [codeOf_cons, Lexeme.code, if_neg hc, hr, List.append_assoc]

lemma separates_space (hb : l.kind ≠ .blank) (hc : ¬ l.kind.isComment) : l.separates (' ' :: y) := by
  obtain ⟨k, t⟩ := l
  have hoperator : isOperatorChar ' ' = false := by decide
  have hname : isNameChar ' ' = false := by decide
  have hnumber : isNumberChar ' ' = false := by decide
  cases k <;> first
    | exact absurd rfl hb
    | exact absurd rfl hc
    | simp [Lexeme.separates, List.isPrefixOf, hoperator, hname, hnumber]

/-- What is separate from a lexeme stays so when its comments are blanked. -/
lemma separates_codeOf (h : lex s = ls) (hsep : l.separates (joined ls)) (hb : l.kind ≠ .blank) (hc : ¬ l.kind.isComment) :
    l.separates (codeOf ls) := by
  obtain ⟨p, q, r, hp, hr, hblank⟩ := exists_common_front h
  rw [hp] at hsep
  rw [hr]
  rcases p with _ | ⟨d, p⟩
  · rcases hblank with rfl | ⟨y, rfl⟩
    · exact separates_of_append (y := []) hsep
    · exact separates_space hb hc
  · refine separates_append (separates_of_append hsep) fun _ _ _ => ?_
    rcases hblank with rfl | ⟨y, rfl⟩
    · simp
    · simp

/-- The end of a line stays when comments are blanked. -/
lemma head?_codeOf (h : lex y = ls) (hy : y.head?.all (· = '\n')) : (codeOf ls).head? = y.head? := by
  rcases y with _ | ⟨d, y⟩
  · rw [lex_nil] at h
    rw [← h]
    rfl
  · obtain rfl : d = '\n' := by simpa using hy
    rw [lex_newline] at h
    rw [← h]
    rfl

/-- A lexeme that is neither blank nor a comment stays the first one. -/
lemma lex_codeOf_cons (h : lex s = l :: ls) (hb : l.kind ≠ .blank) (hc : ¬ l.kind.isComment) :
    lex (codeOf (l :: ls)) = l :: lex (codeOf ls) := by
  obtain ⟨c, u, y, -, hm, ht, hy⟩ := lex_cons_inv h
  obtain ⟨k, t⟩ := l
  obtain rfl : t = c :: u := ht
  rw [codeOf_cons, Lexeme.code, if_neg hc]
  refine lex_cons ?_
  by_cases hs : Lexeme.isSound ⟨k, c :: u⟩
  · obtain ⟨hfirst, hsep⟩ := (munch_append_iff hs).1 hm
    rw [← joined_lex (s := y), hy] at hsep
    exact (munch_append_iff hs).2 ⟨hfirst, separates_codeOf hy hsep hb hc⟩
  · have hfault : k = .stray ∨ k = .operator := by
      by_contra hk
      rw [not_or] at hk
      exact hs (by simp [Lexeme.isSound, hk.1, hk.2])
    rcases hfault with rfl | rfl
    · exact munch_stray_append hm (head?_codeOf hy)
    · obtain ⟨hhead, hstays⟩ := munch_operator_append hm
      have hsep : Lexeme.separates ⟨.operator, c :: u⟩ (joined ls) := by
        rw [← hy, joined_lex]
        exact hhead
      refine hstays _ (separates_codeOf hy hsep hb hc) fun v hv => ?_
      -- the end of a comment that is found in the blanked text stands in the text
      have hcode : ['*', '/'] <:+: codeOf (⟨.operator, v⟩ :: ls) := hv
      have hinfix := infix_joined_of_codeOf ⟨by simp, by decide, by decide⟩ hcode
      rwa [joined_cons, ← hy, joined_lex] at hinfix

/-- **Blanking comments** leaves the other tokens where they are, and the line breaks of comments. -/
lemma filter_place_codeOf (h : lex s = ls) : (place n (lex (codeOf ls))).filter (·.kind ≠ .blank) =
    ((place n ls).filter (·.kind ≠ .blank)).flatMap Token.uncommented := by
  induction ls generalizing s n with
  | nil => rw [codeOf_nil, lex_nil]; rfl
  | cons l ls ih =>
    have ih := ih (n := n + l.text.width) (lex_joined_right (show lex s = [l] ++ ls from h))
    rw [place_cons]
    by_cases hb : l.kind = .blank
    · have hblank : l.text.all isBlank := by
        obtain ⟨k, t⟩ := l
        obtain rfl : k = .blank := hb
        exact all_isBlank_of_lex h
      have hcode : codeOf (l :: ls) = l.text ++ codeOf ls := by
        rw [codeOf_cons, Lexeme.code, hb]
        rfl
      rw [hcode, filter_place_gap fun c hc => .inl (List.all_eq_true.1 hblank c hc), List.filter_cons_of_neg (by simp [hb]), ih,
        lineBreaks_eq_nil, List.nil_append]
      intro hmem
      exact absurd (List.all_eq_true.1 hblank _ hmem) (by decide)
    by_cases hc : l.kind.isComment
    · have hcode : codeOf (l :: ls) = blanked l.text ++ codeOf ls := by rw [codeOf_cons, Lexeme.code, if_pos hc]
      have hgap : ∀ c ∈ blanked l.text, isBlank c ∨ c = '\n' := by
        intro c hc
        rcases mem_blanked hc with rfl | rfl
        · exact .inl (by decide)
        · exact .inr rfl
      rw [hcode, filter_place_gap hgap, lineBreaks_blanked, width_blanked, ih, List.filter_cons_of_pos (by simpa using hb),
        List.flatMap_cons, Token.uncommented, if_pos hc]
    · rw [lex_codeOf_cons h hb hc, place_cons, List.filter_cons_of_pos (by simpa using hb),
        List.filter_cons_of_pos (by simpa using hb), List.flatMap_cons, Token.uncommented, if_neg hc, ih]
      rfl

theorem tokens_commentsBlanked : (tokens (commentsBlanked s)).filter (·.kind ≠ .blank) =
    ((tokens s).filter (·.kind ≠ .blank)).flatMap Token.uncommented :=
  filter_place_codeOf rfl

lemma kind_of_mem_lineBreaks (h : t' ∈ lineBreaks n s) : t'.kind = .newline := by
  induction s generalizing n with
  | nil => cases h
  | cons c s ih =>
    rw [lineBreaks] at h
    split at h
    · rcases List.mem_cons.1 h with rfl | h
      · rfl
      · exact ih h
    · exact ih h

/-- Every token is a line break or was there before. -/
lemma mem_uncommented (h : t' ∈ ts.flatMap Token.uncommented) : t'.kind = .newline ∨ (t' ∈ ts ∧ ¬ t'.kind.isComment) := by
  obtain ⟨t, ht, h⟩ := List.mem_flatMap.1 h
  rw [Token.uncommented] at h
  split at h
  · exact .inl (kind_of_mem_lineBreaks h)
  · next hc =>
    obtain rfl := List.mem_singleton.1 h
    exact .inr ⟨ht, hc⟩

end Source

end RuleWeaver
