import RuleWeaver.Proofs.Source.Tidying

/-!
# Carriage returns in front of line breaks

A carriage return in front of a line break belongs to a literal or comment that goes on behind the line break, to the blanks or
the comment that the line ends with, or stands there by itself (`carried_lex`).  The code of the text stays as it is.
-/

namespace RuleWeaver.Source

open Text (run run_append_of_not_all run_le_length)

variable {a b p q s : Text} {c : Char} {k : Kind} {l : Lexeme} {A B L L' : List Lexeme} {stack : List Kind} {e : Bool}

/-! ### Literals and comments with a line break -/

lemma munchRaw_carried (h : munchRaw (p ++ '\n' :: q) = (.rawString, (p ++ '\n' :: q).length)) :
    munchRaw (p ++ '\r' :: '\n' :: q) = (.rawString, (p ++ '\r' :: '\n' :: q).length) := by
  have hp : p.all (· ≠ '\x60') := by
    by_contra hnot
    have hlt : run (· ≠ '\x60') p < p.length :=
      Nat.lt_of_le_of_ne run_le_length fun he => hnot (Text.run_eq_length_iff.1 he)
    have hn := congrArg Prod.snd h
    unfold munchRaw at hn
    dsimp only at hn
    rw [run_append_of_not_all hnot, List.length_append, List.length_cons] at hn
    split at hn <;> dsimp only at hn <;> omega
  have hp' : (p ++ ['\r']).all (· ≠ '\x60') := by
    rw [List.all_append, hp]
    rfl
  rw [munchRaw_append hp, Prod.mk.injEq] at h
  rw [← List.singleton_append, ← List.append_assoc, munchRaw_append hp', h.1]
  simp only [List.length_append, List.length_cons] at h ⊢
  rw [Prod.mk.injEq]
  exact ⟨rfl, by omega⟩

lemma commentEnd?_append_carriage (h : commentEnd? a = none) : commentEnd? (a ++ ['\r']) = none := by
  cases hend : commentEnd? (a ++ ['\r']) with
  | none => rfl
  | some n =>
    have hle := commentEnd?_le hend
    rw [List.length_append, List.length_singleton] at hle
    obtain hn | rfl : n ≤ a.length ∨ n = a.length + 1 := by omega
    · rw [commentEnd?_append hn, h] at hend
      cases hend
    · have hlast := getLast?_commentEnd (u := a ++ ['\r']) (by simpa using hend)
      simp at hlast

lemma munchSlash_carried (h : munchSlash (p ++ '\n' :: q) = (.blockComment, (p ++ '\n' :: q).length)) :
    munchSlash (p ++ '\r' :: '\n' :: q) = (.blockComment, (p ++ '\r' :: '\n' :: q).length) := by
  obtain ⟨p, rfl⟩ : ∃ p', p = '*' :: p' := by
    rcases p with _ | ⟨d, p⟩
    · cases (Prod.mk.inj h).1
    by_cases hd : d = '/'
    · subst hd
      cases (Prod.mk.inj h).1
    by_cases hd' : d = '*'
    · exact ⟨p, by rw [hd']⟩
    · rw [List.cons_append, munchSlash_other hd hd'] at h
      cases (Prod.mk.inj h).1
  simp only [List.cons_append, List.length_cons, munchSlash_star_eq] at h ⊢
  obtain ⟨hend, -⟩ := h
  have hlength : (p ++ '\n' :: q).length = p.length + 1 + q.length := by
    rw [List.length_append, List.length_cons]
    omega
  rw [commentEnd?_append_newline, hlength] at hend
  -- the comment ends behind the line break
  have hp : commentEnd? p = none := by
    cases hsome : commentEnd? p with
    | none => rfl
    | some n =>
      have hle := commentEnd?_le hsome
      rw [hsome, Option.some_or, Option.some.injEq] at hend
      omega
  rw [hp, Option.none_or] at hend
  obtain ⟨n, hn, he⟩ := Option.map_eq_some_iff.1 hend
  have hlength' : (p ++ '\r' :: '\n' :: q).length = p.length + 1 + (q.length + 1) := by
    rw [List.length_append, List.length_cons, List.length_cons]
    omega
  refine ⟨?_, ?_⟩
  · rw [← List.singleton_append, ← List.append_assoc, commentEnd?_append_newline, commentEnd?_append_carriage hp, hn,
      List.append_assoc, List.singleton_append, hlength', Option.none_or, Option.map_some, List.length_append,
      List.length_singleton, Option.some.injEq]
    omega
  · have hle : run isOperatorChar ('*' :: (p ++ '\r' :: '\n' :: q)) ≤ _ := run_le_length
    rw [List.length_cons] at hle
    omega

/-! ### The lexemes with the carriage return -/

/-- The second list is the first one with a carriage return in front of a line break. -/
inductive Carried : List Lexeme → List Lexeme → Prop
  | blank (A B : List Lexeme) (w : Text) :
      Carried (A ++ ⟨.blank, w⟩ :: lineBreak :: B) (A ++ ⟨.blank, w ++ ['\r']⟩ :: lineBreak :: B)
  | comment (A B : List Lexeme) (t : Text) :
      Carried (A ++ ⟨.lineComment, t⟩ :: lineBreak :: B) (A ++ ⟨.lineComment, t ++ ['\r']⟩ :: lineBreak :: B)
  | bare (A B : List Lexeme) : Carried (A ++ lineBreak :: B) (A ++ ⟨.blank, ['\r']⟩ :: lineBreak :: B)
  | long (A B : List Lexeme) {k : Kind} (hk : k = .rawString ∨ k = .blockComment) (p q : Text) :
      Carried (A ++ ⟨k, p ++ '\n' :: q⟩ :: B) (A ++ ⟨k, p ++ '\r' :: '\n' :: q⟩ :: B)

lemma precedes_carriage (hblank : l.kind ≠ .blank) (hcomment : l.kind ≠ .lineComment) : l.precedes ('\r' :: s) := by
  obtain ⟨k, t⟩ := l
  have hoperator : isOperatorChar '\r' = false := by decide
  have hname : isNameChar '\r' = false := by decide
  have hnumber : isNumberChar '\r' = false := by decide
  cases k <;> first
    | exact absurd rfl hblank
    | exact absurd rfl hcomment
    | simp [Lexeme.precedes, Lexeme.separates, List.isPrefixOf, hoperator, hname, hnumber]

/-- A line that ends in a carriage return. -/
lemma carried_line (h : IsLexed (A ++ lineBreak :: B)) : ∃ L, IsLexed L ∧ joined L = joined A ++ '\r' :: '\n' :: joined B ∧
    Carried (A ++ lineBreak :: B) L := by
  have hB : IsLexed (lineBreak :: B) := IsLexed.right h
  have hlexB : ∀ w : Text, w ≠ [] → w.all isBlank → lex (w ++ '\n' :: joined B) = ⟨.blank, w⟩ :: lineBreak :: B := by
    intro w hne hw
    rw [lex_blanks hne hw]
    exact congrArg _ hB.1
  have hsound : ∀ {l : Lexeme}, l.isSound → ∀ m ∈ l :: lineBreak :: B, m.isSound := fun hl =>
    List.forall_mem_cons.2 ⟨hl, hB.2⟩
  rcases List.eq_nil_or_concat' A with rfl | ⟨A, l, rfl⟩
  · exact ⟨⟨.blank, ['\r']⟩ :: lineBreak :: B, .of_eq (by rfl) (hlexB ['\r'] (by simp) (by decide)) (hsound rfl), by simp [lineBreak],
      .bare [] B⟩
  rw [List.append_assoc, List.singleton_append] at h
  have hl : l ∈ lex (joined (A ++ l :: lineBreak :: B)) := by
    rw [h.1]
    simp
  by_cases hblank : l.kind = .blank
  · obtain ⟨k, w⟩ := l
    obtain rfl : k = .blank := hblank
    have hw : w.all isBlank := all_isBlank_of_lex (IsLexed.right h).1
    obtain ⟨d, w, rfl⟩ := List.exists_cons_of_ne_nil (text_ne_nil hl)
    have hdot : d ≠ '.' := by
      rintro rfl
      simp [isBlank] at hw
    have hcarried := hlexB (d :: w ++ ['\r']) (by simp) (by rw [List.all_append, hw]; decide)
    refine ⟨A ++ ⟨.blank, d :: w ++ ['\r']⟩ :: lineBreak :: B, h.replace hdot rfl (.of_eq (by simp [lineBreak]) hcarried (hsound rfl)) rfl,
      by simp [lineBreak], ?_⟩
    rw [List.append_assoc]
    exact .blank A B (d :: w)
  by_cases hcomment : l.kind = .lineComment
  · obtain ⟨t, ht, hbreak⟩ := exists_lineComment hl hcomment
    obtain ⟨k, w⟩ := l
    obtain rfl : k = .lineComment := hcomment
    obtain rfl : w = '/' :: '/' :: t := ht
    have hlex : lex ('/' :: '/' :: ((t ++ ['\r']) ++ '\n' :: joined B)) = ⟨.lineComment, '/' :: '/' :: (t ++ ['\r'])⟩ :: lineBreak :: B := by
      rw [lex_lineComment (by simpa using hbreak)]
      exact congrArg _ hB.1
    refine ⟨A ++ ⟨.lineComment, '/' :: '/' :: (t ++ ['\r'])⟩ :: lineBreak :: B, h.replace (by decide) rfl
      (.of_eq (by simp [lineBreak]) hlex (hsound rfl)) rfl, by simp [lineBreak], ?_⟩
    rw [List.append_assoc]
    exact .comment A B ('/' :: '/' :: t)
  · have hA : IsLexed (A ++ [l]) := IsLexed.left (B := lineBreak :: B) (by simpa using h)
    have hlex : lex (joined (A ++ [l]) ++ '\r' :: '\n' :: joined B) = (A ++ [l]) ++ ⟨.blank, ['\r']⟩ :: lineBreak :: B := by
      rw [lex_append hA.isWhole, hA.1, ← hlexB ['\r'] (by simp) (by decide)]
      · rfl
      · rw [hA.1, List.getLast?_concat]
        rintro _ ⟨⟩
        exact precedes_carriage hblank hcomment
    refine ⟨(A ++ [l]) ++ ⟨.blank, ['\r']⟩ :: lineBreak :: B, .of_eq (by simp [lineBreak]) hlex ?_, by simp [lineBreak], .bare _ B⟩
    rintro m hm
    rcases List.mem_append.1 hm with hm | hm
    · exact hA.2 m hm
    · exact hsound rfl m hm

lemma munch_carried (h : munch c (p ++ '\n' :: q) = (k, (p ++ '\n' :: q).length)) (hk : k = .rawString ∨ k = .blockComment)
    (hc : c = '\x60' ∨ c = '/') : munch c (p ++ '\r' :: '\n' :: q) = (k, (p ++ '\r' :: '\n' :: q).length) := by
  rcases hc with rfl | rfl
  · have hm : munchRaw (p ++ '\n' :: q) = (k, _) := h
    obtain rfl : k = .rawString := by
      rcases munchRaw_fst (u := p ++ '\n' :: q) with e | e <;> rw [hm] at e
      · exact e
      · rcases hk with rfl | rfl <;> cases e
    exact munchRaw_carried hm
  · have hm : munchSlash (p ++ '\n' :: q) = (k, _) := h
    obtain rfl : k = .blockComment := by
      rcases munchSlash_fst (y := p ++ '\n' :: q) with e | e | e <;> rw [hm] at e
      · rcases hk with rfl | rfl <;> cases e
      · rcases hk with rfl | rfl <;> cases e
      · exact e
    exact munchSlash_carried hm

/-- A literal or comment that goes on behind a carriage return. -/
lemma carried_long (h : IsLexed (A ++ ⟨k, c :: (p ++ '\n' :: q)⟩ :: B)) (hk : k = .rawString ∨ k = .blockComment)
    (hc : c = '\x60' ∨ c = '/') : IsLexed (A ++ ⟨k, c :: (p ++ '\r' :: '\n' :: q)⟩ :: B) := by
  have hB : IsLexed B := IsLexed.right (A := [⟨k, c :: (p ++ '\n' :: q)⟩]) (IsLexed.right h)
  have hmem : ⟨k, c :: (p ++ '\n' :: q)⟩ ∈ A ++ ⟨k, c :: (p ++ '\n' :: q)⟩ :: B := by simp
  obtain ⟨d, v, ht, hm⟩ := exists_munch_of_mem (by rwa [h.1]) (h.2 _ hmem)
  obtain ⟨rfl, rfl⟩ := List.cons.inj ht
  have hsound : Lexeme.isSound ⟨k, c :: (p ++ '\r' :: '\n' :: q)⟩ := by
    rcases hk with rfl | rfl <;> rfl
  have hseparates : Lexeme.separates ⟨k, c :: (p ++ '\r' :: '\n' :: q)⟩ (joined B) := by
    rcases hk with rfl | rfl
    · rfl
    · have hoperator : isOperatorChar '\r' = false := by decide
      simp [Lexeme.separates, hoperator]
  have hnew : IsLexed (⟨k, c :: (p ++ '\r' :: '\n' :: q)⟩ :: B) := by
    refine .of_eq rfl ?_ (List.forall_mem_cons.2 ⟨hsound, hB.2⟩)
    rw [joined_cons, List.cons_append, lex_cons ((munch_append_iff hsound).2 ⟨munch_carried hm hk hc, hseparates⟩), hB.1]
  exact h.replace (by rcases hc with rfl | rfl <;> decide) rfl hnew rfl

/-- **The lexemes of a text with a carriage return in front of a line break.** -/
theorem carried_lex (h : isWhole (a ++ '\n' :: b)) :
    Carried (lex (a ++ '\n' :: b)) (lex (a ++ '\r' :: '\n' :: b)) ∧ isWhole (a ++ '\r' :: '\n' :: b) := by
  obtain ⟨A, l, B, p, q, hlex, hl, rfl, rfl⟩ := exists_lexeme_at (joined_lex (s := a ++ '\n' :: b))
  have hlexed := isLexed_lex h
  rw [hlex] at hlexed ⊢
  have hmem : '\n' ∈ l.text := by simp [hl]
  have hform : l.Form := form_of_mem_lex (s := joined (A ++ l :: B)) (by rw [hlexed.1]; simp) (hlexed.2 l (by simp))
  obtain ⟨hk, hall⟩ | rfl | ⟨t, rfl, ht⟩ | ⟨hk, u, c, hc, ht⟩ | ⟨-, hnot, -⟩ := hform
  · exact absurd (List.all_eq_true.1 hall _ hmem) (by decide)
  · obtain ⟨rfl, rfl⟩ : p = [] ∧ q = [] := by
      rcases p with _ | ⟨d, p⟩
      · exact ⟨rfl, (List.cons.inj hl).2.symm⟩
      · have := congrArg List.length hl
        simp [lineBreak] at this
    obtain ⟨L, hL, hjoined, hcarried⟩ := carried_line hlexed
    rw [List.append_nil, List.nil_append, ← hjoined]
    exact ⟨by rw [hL.1]; exact hcarried, hL.isWhole⟩
  · simp [ht] at hmem
  · obtain ⟨k, w⟩ := l
    obtain rfl : w = c :: (u ++ [c]) := ht
    -- the marks stay, and the carriage return goes in between
    obtain ⟨p, rfl⟩ : ∃ p', p = c :: p' := by
      rcases p with _ | ⟨d, p⟩
      · have hhead := (List.cons.inj hl).1
        rcases hc with rfl | rfl <;> cases hhead
      · exact ⟨p, by rw [(List.cons.inj hl).1]⟩
    have hu : u ++ [c] = p ++ '\n' :: q := (List.cons.inj hl).2
    rw [hu] at hlexed ⊢
    have hL := carried_long hlexed hk hc
    have hjoined : joined A ++ c :: p ++ '\r' :: '\n' :: (q ++ joined B) = joined (A ++ ⟨k, c :: (p ++ '\r' :: '\n' :: q)⟩ :: B) := by
      simp
    rw [hjoined]
    refine ⟨?_, hL.isWhole⟩
    rw [hL.1]
    exact .long A B hk (c :: p) q
  · exact absurd hmem hnot

end RuleWeaver.Source
