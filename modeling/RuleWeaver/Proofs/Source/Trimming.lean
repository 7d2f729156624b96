import RuleWeaver.Proofs.Detection.Scanning
import RuleWeaver.Proofs.Source.Comments
import RuleWeaver.Proofs.Source.Names
import RuleWeaver.Proofs.Source.Tokens

/-!
# White space at the end of a text

What trimming makes of lexemes.  Most lexemes do not end in white space, so trimming takes away whole lexemes; of a comment,
and of a name with white space beyond ASCII, it takes the end (`trimmed_lex`).
-/

namespace RuleWeaver.Source

open Text (run run_eq_length_iff)
open Unicode (isSpace)

variable {c x mark : Char} {k s t u w y : Text} {l l' : Lexeme} {J K L ls : List Lexeme} {stack : List Kind}

/-! ### Characters that no lexeme ends in -/

lemma isSpace_of_isBlank (h : isBlank c) : isSpace c := by
  simp only [isBlank, decide_eq_true_eq] at h
  rcases h with rfl | rfl | rfl | rfl <;> decide

/-- White space is a blank, a line break, a character of names, or begins no lexeme. -/
lemma isBlank_or_isNameStart_of_isSpace (h : isSpace c) : isBlank c ∨ c = '\n' ∨ c = '\x0b' ∨ isNameStart c := by
  have hmem := Detection.isSpace_toNat h
  by_cases hascii : c.toNat < 0x80
  · have hc : c = Char.ofNat c.toNat := (Char.ofNat_toNat c).symm
    generalize c.toNat = n at hmem hc hascii
    subst hc
    simp only [List.mem_cons, List.not_mem_nil, or_false] at hmem
    have hsmall : n = 9 ∨ n = 10 ∨ n = 11 ∨ n = 12 ∨ n = 13 ∨ n = 32 := by omega
    rcases hsmall with rfl | rfl | rfl | rfl | rfl | rfl <;> decide
  · refine .inr (.inr (.inr ?_))
    simp only [isNameStart, decide_eq_true_eq]
    exact .inr (.inr (Nat.not_lt.1 hascii))

lemma not_isSpace_of_isNumberChar (h : isNumberChar c) : isSpace c = false := by
  by_contra hs
  rw [Bool.not_eq_false] at hs
  simp only [isNumberChar, decide_eq_true_eq] at h
  rcases h with h | rfl | rfl
  · have hword := Detection.isWord_of_isAlphanum h
    rw [Detection.not_isWord_of_isSpace hs] at hword
    cases hword
  · exact absurd hs (by decide)
  · exact absurd hs (by decide)

lemma not_isSpace_of_isOperatorChar (h : isOperatorChar c) : isSpace c = false := by
  unfold isOperatorChar at h
  split at h <;> first | decide | cases h

lemma getLast?_quoted (h : quoted mark u = (true, u.length)) : u.getLast? = some mark := by
  fun_induction quoted mark u with
  | case1 => cases h
  | case2 => cases h
  | case3 => cases h
  | case4 c s _ ih =>
    have hs : quoted mark s = (true, s.length) := by
      simp only [Prod.mk.injEq, List.length_cons] at h
      exact Prod.ext h.1 (by simpa using h.2)
    rw [List.getLast?_cons_cons, List.getLast?_cons, ih hs]
    rfl
  | case5 => cases h
  | case6 s =>
    have hs : s = [] := by
      simp only [Prod.mk.injEq, List.length_cons, true_and] at h
      exact List.length_eq_zero_iff.1 (by omega)
    rw [hs, List.getLast?_singleton]
  | case7 c s _ _ _ _ _ ih =>
    have hs : quoted mark s = (true, s.length) := by
      simp only [Prod.mk.injEq, List.length_cons] at h
      exact Prod.ext h.1 (by simpa using h.2)
    rw [List.getLast?_cons, ih hs]
    rfl

lemma getLast?_raw (h : munchRaw u = (.rawString, u.length)) : u.getLast? = some '\x60' := by
  unfold munchRaw at h
  dsimp only at h
  split at h
  · have hlength : run (· ≠ '\x60') u + 1 = u.length := (Prod.mk.inj h).2
    have hsplit := List.takeWhile_append_dropWhile (p := (· ≠ '\x60')) (l := u)
    have hrest : (u.dropWhile (· ≠ '\x60')).length = 1 := by
      have := congrArg List.length hsplit
      rw [List.length_append] at this
      unfold run at hlength
      omega
    obtain ⟨d, hd⟩ := List.length_eq_one_iff.1 hrest
    have hdrop := List.head?_dropWhile_not (· ≠ '\x60') u
    rw [hd] at hdrop
    rw [← hsplit, hd, List.getLast?_append]
    simpa using hdrop
  · cases h

lemma getLast?_commentEnd (h : commentEnd? u = some u.length) : u.getLast? = some '/' := by
  induction u with
  | nil => cases h
  | cons c u ih =>
    rw [commentEnd?_cons] at h
    split at h
    · next hc =>
      have hu : u.length = 1 := by simpa using (Option.some.inj h).symm
      obtain ⟨d, rfl⟩ := List.length_eq_one_iff.1 hu
      have hd : d = '/' := by simpa using hc.2
      rw [hd]
      rfl
    · obtain ⟨m, hm, e⟩ := Option.map_eq_some_iff.1 h
      have hm' : m = u.length := by simpa using e
      rw [List.getLast?_cons, ih (by rw [hm, hm'])]
      rfl

/-! ### One lexeme -/

/-- What is left of a lexeme when white space at its end goes. -/
inductive Lexeme.IsCut : Lexeme → Lexeme → Prop
  | comment (t w : Text) (h : w.all isSpace) : IsCut ⟨.lineComment, t ++ w⟩ ⟨.lineComment, t⟩
  | word (t w : Text) (h : w.all isSpace) : IsCut ⟨wordKind (t ++ w), t ++ w⟩ ⟨wordKind t, t⟩

lemma not_isSpace_of_munchQuoted {kind : Kind} (hk : kind = .string ∨ kind = .rune)
    (h : ∀ y, munch mark y = munchQuoted kind mark y) : isSpace mark = false := by
  by_contra hs
  rw [Bool.not_eq_false] at hs
  have hopen : (munch mark []).1 = .stray := by rw [h]; rfl
  rcases isBlank_or_isNameStart_of_isSpace hs with hb | rfl | rfl | hn
  · simp [munch, hb] at hopen
  · cases hopen
  · have hclosed := h ['\x0b']
    rcases hk with rfl | rfl <;> cases hclosed
  · by_cases hb : isBlank mark
    · simp [munch, hb] at hopen
    · have hkind := wordKind_isWordlike [mark]
      have : wordKind [mark] = .stray := by simpa [munch, hb, hn] using hopen
      rw [this] at hkind
      cases hkind

/-- Only comments and names are cut. -/
lemma exists_isCut {kind : Kind} (hm : munch c (u ++ w) = (kind, (u ++ w).length))
    (hs : Lexeme.isSound ⟨kind, c :: (u ++ w)⟩) (hw : w.all isSpace) (hne : w ≠ [])
    (hlast : ∀ x ∈ (c :: u).getLast?, isSpace x = false) :
    ∃ l, lex (c :: u) = [l] ∧ l.isSound ∧ Lexeme.IsCut ⟨kind, c :: (u ++ w)⟩ l := by
  have hstray : kind ≠ .stray := by
    rintro rfl
    simp [Lexeme.isSound] at hs
  obtain ⟨x, hend⟩ : ∃ x, (u ++ w).getLast? = some x := Option.isSome_iff_exists.1 (by simp [hne])
  have hx : isSpace x := by
    rw [List.getLast?_append_of_ne_nil u hne] at hend
    exact List.all_eq_true.1 hw x (List.mem_of_getLast? hend)
  have hmem : x ∈ u ++ w := List.mem_of_getLast? hend
  -- white space is not what the other lexemes end in
  have contra : ∀ {d : Char}, (u ++ w).getLast? = some d → isSpace d = false → False := by
    intro d hd hspace
    rw [hend, Option.some.injEq] at hd
    rw [hd, hspace] at hx
    cases hx
  have single : ∀ {k : Kind}, munch c u = (k, u.length) → lex (c :: u) = [⟨k, c :: u⟩] := by
    intro k hk
    have := lex_cons (y := []) (u := u) (k := k) (by rw [List.append_nil]; exact hk)
    rwa [List.append_nil, lex_nil] at this
  cases wholeForm hm hstray with
  | blank hk hc hu =>
    obtain ⟨y, hy⟩ : ∃ y, (c :: u).getLast? = some y := ⟨_, List.getLast?_cons⟩
    have hblank : isBlank y := by
      rcases List.mem_cons.1 (List.mem_of_getLast? hy) with rfl | hmem
      · exact hc
      · exact List.all_eq_true.1 hu y (List.mem_append_left _ hmem)
    exact absurd (hlast y hy) (by rw [isSpace_of_isBlank hblank]; simp)
  | word hk hc hu h =>
    rw [List.all_append, Bool.and_eq_true] at hu
    have hmunch : munch c u = (wordKind (c :: u), u.length) := by
      rw [h, run_eq_length_iff.2 hu.1, List.take_length]
    refine ⟨_, single hmunch, Lexeme.isSound_of_isWordlike (wordKind_isWordlike _), ?_⟩
    rw [hk]
    exact .word (c :: u) w hw
  | number hk hc hu => exact (contra hend (not_isSpace_of_isNumberChar (List.all_eq_true.1 hu x hmem))).elim
  | single hk hu | dot hk hc hu => exact absurd (List.append_eq_nil_iff.1 hu).2 hne
  | quoted hk hu h => exact (contra (getLast?_quoted hu) (not_isSpace_of_munchQuoted hk h)).elim
  | raw hk hc hu => exact (contra (getLast?_raw hu) (by decide)).elim
  | ellipsis hk hc hu => exact (contra (d := '.') (by rw [hu]; rfl) (by decide)).elim
  | lineComment hk hc v hu hv =>
    subst hk hc
    rcases u with _ | ⟨d, u⟩
    · -- white space does not begin a comment
      obtain rfl : w = '/' :: v := hu
      exact absurd (List.all_eq_true.1 hw _ List.mem_cons_self) (by decide)
    · obtain ⟨rfl, rfl⟩ := List.cons.inj hu
      have hrun : run (· ≠ '\n') ('/' :: u) = ('/' :: u).length := by
        rw [run_eq_length_iff, List.all_eq_true]
        intro y hy
        rcases List.mem_cons.1 hy with rfl | hy
        · rfl
        · exact decide_eq_true fun e => hv (List.mem_append_left _ (e ▸ hy))
      have hmunch : munch '/' ('/' :: u) = (.lineComment, ('/' :: u).length) := by
        rw [← hrun, ← munchSlash_slash]
        rfl
      exact ⟨_, single hmunch, rfl, .comment ('/' :: '/' :: u) w hw⟩
  | blockComment hk hc v hu hv =>
    refine (contra (d := '/') ?_ (by decide)).elim
    rw [hu, List.getLast?_cons, getLast?_commentEnd hv]
    rfl
  | operator hk hc hu => exact (contra hend (not_isSpace_of_isOperatorChar (List.all_eq_true.1 hu x hmem))).elim

/-! ### Trimming -/

/-- Whether a lexeme is white space: blanks, line breaks, and names made of white space beyond ASCII. -/
def Lexeme.IsGap (l : Lexeme) : Prop :=
  l.text.all isSpace ∧ (l.kind = .blank ∨ l.kind = .newline ∨ l.kind = wordKind l.text)

/-- Whether lexemes are what is left of others when white space at the end goes. -/
inductive Trimmed : List Lexeme → List Lexeme → Prop
  | gap {J : List Lexeme} (h : ∀ l ∈ J, l.IsGap) : Trimmed J []
  | cut {l l' : Lexeme} {J : List Lexeme} (hl : l.IsCut l') (h : ∀ m ∈ J, m.IsGap) : Trimmed (l :: J) [l']
  | cons (l : Lexeme) {L K : List Lexeme} (h : Trimmed L K) : Trimmed (l :: L) (l :: K)

lemma isGap_of_mem_lex (hw : isWhole w) (hspace : w.all isSpace) : ∀ l ∈ lex w, l.IsGap := by
  generalize hls : lex w = ls
  induction ls generalizing w with
  | nil => simp
  | cons l ls ih =>
    obtain ⟨c, u, y, rfl, hm, ht, hy⟩ := lex_cons_inv hls
    obtain ⟨k, t⟩ := l
    obtain rfl : t = c :: u := ht
    rw [isWhole, hls, List.all_cons, Bool.and_eq_true] at hw
    have hwhole : isWhole y := by rw [isWhole, hy, hw.2]
    have hsplit : (c :: u).all isSpace ∧ List.all y isSpace := by
      rwa [← List.cons_append, List.all_append, Bool.and_eq_true] at hspace
    intro m hmem
    rcases List.mem_cons.1 hmem with rfl | hmem
    · refine ⟨hsplit.1, ?_⟩
      obtain ⟨h₁, -⟩ := (munch_append_iff hw.1).1 hm
      have hc : isSpace c := List.all_eq_true.1 hsplit.1 c List.mem_cons_self
      rcases isBlank_or_isNameStart_of_isSpace hc with hb | rfl | rfl | hn
      · left
        simpa [munch, hb] using (congrArg Prod.fst h₁).symm
      · exact .inr (.inl (congrArg Prod.fst h₁).symm)
      · -- a vertical tab begins no lexeme
        have hstray : Kind.stray = k := congrArg Prod.fst h₁
        rw [← hstray] at hw
        cases hw.1
      · by_cases hb : isBlank c
        · left
          simpa [munch, hb] using (congrArg Prod.fst h₁).symm
        · simp only [munch, hb, hn, Bool.false_eq_true, if_false, if_true, Prod.mk.injEq] at h₁
          rw [h₁.2, List.take_length] at h₁
          exact .inr (.inr h₁.1.symm)
    · exact ih hwhole hsplit.2 hy m hmem

/-- **What trimming makes of the lexemes of a text.** -/
theorem trimmed_lex (hw : isWhole (k ++ w)) (hspace : w.all isSpace) (hlast : ∀ x ∈ k.getLast?, isSpace x = false) :
    Trimmed (lex (k ++ w)) (lex k) ∧ isWhole k := by
  generalize hls : lex (k ++ w) = ls
  induction ls generalizing k with
  | nil =>
    have hnil : k ++ w = [] := by rw [← joined_lex (s := k ++ w), hls, joined_nil]
    rw [(List.append_eq_nil_iff.1 hnil).1, lex_nil]
    exact ⟨.gap (by simp), by simp [isWhole]⟩
  | cons l ls ih =>
    rcases k with _ | ⟨d, k⟩
    · rw [List.nil_append] at hls hw
      rw [← hls, lex_nil]
      exact ⟨.gap (isGap_of_mem_lex hw hspace), by simp [isWhole]⟩
    obtain ⟨c, u, y, e, hm, ht, hy⟩ := lex_cons_inv hls
    obtain ⟨kind, t⟩ := l
    obtain rfl : t = c :: u := ht
    rw [List.cons_append, List.cons.injEq] at e
    obtain ⟨rfl, e⟩ := e
    rw [isWhole, hls, List.all_cons, Bool.and_eq_true] at hw
    have hsound := hw.1
    obtain ⟨hm₁, hsep⟩ := (munch_append_iff hsound).1 hm
    rcases List.append_eq_append_iff.1 e with ⟨w₁, rfl, hw₁⟩ | ⟨k', rfl, hy'⟩
    · -- the text ends inside the lexeme or at its end
      rcases w₁ with _ | ⟨x, w₁⟩
      · obtain rfl : w = y := hw₁
        rw [List.append_nil] at hm₁ hsound ⊢
        have hlex : lex (d :: k) = [⟨kind, d :: k⟩] := by
          have := lex_cons (y := []) (u := k) (by rw [List.append_nil]; exact hm₁)
          rwa [List.append_nil, lex_nil] at this
        have hwhole : isWhole w := by rw [isWhole, hy, hw.2]
        rw [hlex, ← hy]
        refine ⟨.cons _ (.gap (isGap_of_mem_lex hwhole hspace)), ?_⟩
        rw [isWhole, hlex, List.all_cons, hsound]
        rfl
      · have hspace' : (x :: w₁).all isSpace ∧ List.all y isSpace := by
          rwa [hw₁, List.all_append, Bool.and_eq_true] at hspace
        have hwhole : isWhole y := by rw [isWhole, hy, hw.2]
        obtain ⟨l', hlex, hl', hcut⟩ := exists_isCut hm₁ hsound hspace'.1 (by simp) hlast
        rw [hlex, ← hy]
        refine ⟨.cut hcut (isGap_of_mem_lex hwhole hspace'.2), ?_⟩
        rw [isWhole, hlex, List.all_cons, hl']
        rfl
    · -- the text goes on behind the lexeme
      have hlast' : ∀ x ∈ k'.getLast?, isSpace x = false := by
        intro x hx
        refine hlast x ?_
        rw [← List.cons_append, List.getLast?_append, Option.mem_def.1 hx]
        rfl
      rw [hy'] at hsep hy
      obtain ⟨htrim, hwhole⟩ := ih (by rw [isWhole, hy, hw.2]) hlast' hy
      have hlex : lex (d :: (u ++ k')) = ⟨kind, d :: u⟩ :: lex k' :=
        lex_cons ((munch_append_iff hsound).2 ⟨hm₁, separates_of_append hsep⟩)
      rw [hlex]
      refine ⟨.cons _ htrim, ?_⟩
      have : (lex k').all Lexeme.isSound := hwhole
      rw [isWhole, hlex, List.all_cons, hsound, this]
      rfl

namespace Trimmed

lemma not_bracket_of_wordKind {v : Text} : (wordKind v).isOpen = false ∧ (wordKind v).isClose = false := by
  fun_cases wordKind v <;> exact ⟨rfl, rfl⟩

lemma not_bracket_of_isGap (h : l.IsGap) : l.kind.isOpen = false ∧ l.kind.isClose = false := by
  rcases h.2 with e | e | e <;> rw [e]
  · exact ⟨rfl, rfl⟩
  · exact ⟨rfl, rfl⟩
  · exact not_bracket_of_wordKind

lemma isBalanced_of_isGap (h : ∀ l ∈ J, l.IsGap) : isBalanced stack J = isBalanced stack [] := by
  induction J with
  | nil => rfl
  | cons l J ih =>
    obtain ⟨h₁, h₂⟩ := not_bracket_of_isGap (h l List.mem_cons_self)
    have ih := ih fun m hm => h m (List.mem_cons_of_mem _ hm)
    simp only [isBalanced, h₁, h₂, Bool.false_eq_true, if_false] at ih ⊢
    exact ih

/-- Trimming takes no bracket. -/
lemma isBalanced_eq (h : Trimmed L K) : isBalanced stack L = isBalanced stack K := by
  induction h generalizing stack with
  | gap h => exact isBalanced_of_isGap h
  | cut hl h =>
    have hkinds : ∀ {l l' : Lexeme}, l.IsCut l' → (l.kind.isOpen = false ∧ l.kind.isClose = false) ∧
        (l'.kind.isOpen = false ∧ l'.kind.isClose = false) := by
      intro l l' hl
      cases hl with
      | comment => exact ⟨⟨rfl, rfl⟩, rfl, rfl⟩
      | word => exact ⟨not_bracket_of_wordKind, not_bracket_of_wordKind⟩
    obtain ⟨⟨h₁, h₂⟩, h₃, h₄⟩ := hkinds hl
    simp only [isBalanced, h₁, h₂, h₃, h₄, Bool.false_eq_true, if_false, isBalanced_of_isGap h]
  | cons l h ih => simp only [isBalanced, ih]

lemma all_isSpace_blanked : (blanked s).all isSpace := by
  rw [List.all_eq_true]
  intro x hx
  obtain ⟨c, -, hx⟩ := List.mem_flatMap.1 hx
  split at hx
  · rw [List.mem_singleton.1 hx]
    decide
  · rw [(List.mem_replicate.1 hx).2]
    decide

end Trimmed

end RuleWeaver.Source
