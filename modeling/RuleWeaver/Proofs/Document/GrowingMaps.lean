import Mathlib.Data.List.Induction
import RuleWeaver.Proofs.Detection.Braces
import RuleWeaver.Proofs.Document.Edits
import RuleWeaver.Proofs.Source.Trimming

/-!
# Map literals that gain entries

The lexemes of the body of a map literal that gains entries: white space at its end goes, and a comma goes behind its last
code, unless that is a comma (`lex_renderBody`).
-/

namespace RuleWeaver

open Source

variable {s a b body w y : Text} {l : Lexeme} {K K' L : List Lexeme} {stack : List Kind}

namespace Source

/-! ### The last code -/

/-- Whether code is the last one of a text, up to blanks, line breaks and comments. -/
lemma lastCodeToken?_cases (hw : isWhole s) :
    (lastCodeToken? s = none ∧ ∀ t ∈ tokens s, t.kind.isSignificant = false) ∨
      ∃ L₁ t L₂, tokens s = L₁ ++ t :: L₂ ∧ lastCodeToken? s = some t ∧ t.kind.isSignificant ∧
        ∀ u ∈ L₂, u.kind.isSignificant = false := by
  have hsound : ∀ t ∈ tokens s, t.kind ≠ .stray := by
    intro t ht hstray
    have hl := isWhole_iff.1 hw t.lexeme (lexeme_mem_lex ht)
    simp [Lexeme.isSound, hstray] at hl
  unfold lastCodeToken?
  generalize tokens s = ts at hsound
  induction ts using List.reverseRecOn with
  | nil => exact .inl ⟨rfl, by simp⟩
  | append_singleton ts t ih =>
    have ih := ih fun u hu => hsound u (List.mem_append_left _ hu)
    have ht := hsound t (by simp)
    rw [List.foldl_append, List.foldl_cons, List.foldl_nil, if_neg ht]
    by_cases hsig : t.kind.isSignificant
    · rw [if_pos hsig]
      exact .inr ⟨ts, t, [], rfl, rfl, hsig, by simp⟩
    · rw [if_neg hsig]
      rcases ih with ⟨hnone, hall⟩ | ⟨L₁, u, L₂, rfl, hlast, husig, hall⟩
      · refine .inl ⟨hnone, fun u hu => ?_⟩
        rcases List.mem_append.1 hu with hu | hu
        · exact hall u hu
        · rw [List.mem_singleton.1 hu]
          simpa using hsig
      · refine .inr ⟨L₁, u, L₂ ++ [t], by simp, hlast, husig, fun v hv => ?_⟩
        rcases List.mem_append.1 hv with hv | hv
        · exact hall v hv
        · rw [List.mem_singleton.1 hv]
          simpa using hsig

/-- A comma may stand behind any code. -/
lemma precedes_comma (hl : l.kind.isSignificant) : l.precedes (',' :: y) := by
  revert hl
  unfold Lexeme.precedes Lexeme.separates
  cases l.kind <;> simp [Kind.isSignificant, isNameChar, isNameStart, isNumberChar, isOperatorChar,
    List.isPrefixOf]

end Source

/-! ### The body -/

/-- How lexemes gain a comma behind their last code. -/
inductive GainsComma : List Lexeme → List Lexeme → Prop
  /-- There is no code, or it ends in a comma or an open brace. -/
  | same {K₁ K₂ : List Lexeme} (hlast : ∀ l ∈ K₁.getLast?, l.kind = .comma ∨ l.kind = .lbrace)
      (hbehind : ∀ l ∈ K₂, l.kind.isSignificant = false) : GainsComma (K₁ ++ K₂) (K₁ ++ K₂)
  | comma {K₁ K₂ : List Lexeme} {l : Lexeme} (hl : l.kind.isSignificant) (hne : l.kind ≠ .comma)
      (hbehind : ∀ l ∈ K₂, l.kind.isSignificant = false) :
      GainsComma (K₁ ++ l :: K₂) (K₁ ++ l :: ⟨.comma, [',']⟩ :: K₂)

lemma GainsComma.isBalanced_eq {K K' : List Lexeme} (h : GainsComma K K') : isBalanced stack K' = isBalanced stack K := by
  cases h with
  | same => rfl
  | @comma K₁ K₂ l hl hne hbehind =>
    have hcomma : ∀ stack, isBalanced stack (l :: ⟨.comma, [',']⟩ :: K₂) = isBalanced stack (l :: K₂) := fun _ => rfl
    exact isBalanced_congr hcomma

/-! ### Code -/

namespace Source

/-- Trimming takes white space. -/
lemma Trimmed.exists_joined (h : Trimmed L K) : ∃ w, joined L = joined K ++ w ∧ w.all Unicode.isSpace := by
  have hgap : ∀ J : List Lexeme, (∀ l ∈ J, l.IsGap) → (joined J).all Unicode.isSpace := by
    intro J hJ
    rw [joined, List.all_flatMap]
    exact List.all_eq_true.2 fun l hl => (hJ l hl).1
  induction h with
  | gap h => exact ⟨_, rfl, hgap _ h⟩
  | @cut l l' J hl h =>
    cases hl with
    | comment t w hw | word t w hw => exact ⟨w ++ joined J, by simp, by rw [List.all_append, hw, hgap J h]; rfl⟩
  | cons l h ih =>
    obtain ⟨w, hw, hspace⟩ := ih
    exact ⟨w, by rw [joined_cons, joined_cons, hw, List.append_assoc], hspace⟩

/-- The code stays when white space at the end goes, unless a name ends with it. -/
lemma Trimmed.significant_eq (h : Trimmed L K) (hw : joined L = joined K ++ w)
    (hL : ∀ l ∈ L, l.kind = wordKind l.text → ∃ c ∈ l.text.getLast?, c ∉ w) : significant L = significant K := by
  have hgap : ∀ J : List Lexeme, (∀ l ∈ J, l.IsGap) → (∀ l ∈ J, l.kind = wordKind l.text → ∃ c ∈ l.text.getLast?, c ∉ w) →
      joined J <:+ w → significant J = [] := by
    intro J hJ hword hsuffix
    refine significant_eq_nil fun l hl => ?_
    obtain ⟨-, hk | hk | hk⟩ := hJ l hl
    · rw [hk]
      rfl
    · rw [hk]
      rfl
    · obtain ⟨c, hc, hnot⟩ := hword l hl hk
      exact absurd (hsuffix.subset (List.mem_flatMap.2 ⟨l, hl, List.mem_of_getLast? hc⟩)) hnot
  induction h with
  | gap h => rw [hgap _ h hL (by rw [hw, joined_nil]; exact List.suffix_refl w), significant_nil]
  | @cut l l' J hl h =>
    have hL' := fun m hm => hL m (List.mem_cons_of_mem _ hm)
    cases hl with
    | comment t v hv =>
      have hsuffix : joined J <:+ w := ⟨v, by simpa using hw⟩
      rw [significant_cons_neg (by rfl), significant_cons_neg (by rfl), hgap J h hL' hsuffix, significant_nil]
    | word t v hv =>
      obtain rfl : v ++ joined J = w := by simpa using hw
      obtain rfl : v = [] := by
        by_contra hne
        obtain ⟨c, hc, hnot⟩ := hL _ List.mem_cons_self rfl
        rw [List.getLast?_append_of_ne_nil _ hne] at hc
        exact hnot (List.mem_append_left _ (List.mem_of_getLast? hc))
      have hJ := hgap J h hL' (List.suffix_append _ _)
      rw [List.append_nil, ← List.singleton_append, significant_append, hJ, List.append_nil]
  | cons l h ih =>
    have ih := ih (by rwa [joined_cons, joined_cons, List.append_assoc, List.append_cancel_left_eq] at hw)
      fun m hm => hL m (List.mem_cons_of_mem _ hm)
    unfold significant at ih ⊢
    rw [List.filter_cons, List.filter_cons, ih]

end Source

/-- The code gains a comma unless it ends in one. -/
lemma GainsComma.significant_eq (h : GainsComma K K') :
    (significant K' = significant K ∧ ∀ l ∈ (significant K).getLast?, l.kind = .comma ∨ l.kind = .lbrace) ∨
      significant K' = significant K ++ [⟨.comma, [',']⟩] ∧ ∃ l ∈ (significant K).getLast?, l.kind ≠ .comma := by
  cases h with
  | @same K₁ K₂ hlast hbehind =>
    refine .inl ⟨rfl, fun l hl => ?_⟩
    rw [significant_append, significant_eq_nil hbehind, List.append_nil] at hl
    rcases List.eq_nil_or_concat K₁ with rfl | ⟨K₁, m, rfl⟩
    · cases hl
    · rw [List.concat_eq_append, List.getLast?_concat] at hlast
      have hm := hlast m rfl
      have hsig : m.kind.isSignificant := by rcases hm with hm | hm <;> rw [hm] <;> rfl
      rw [List.concat_eq_append, significant_append, significant_cons_pos hsig, significant_nil, List.getLast?_concat] at hl
      cases hl
      exact hm
  | @comma K₁ K₂ l hl hne hbehind =>
    have hcomma : Kind.isSignificant .comma := rfl
    refine .inr ⟨?_, l, ?_, hne⟩
    · simp only [significant_append, significant_cons_pos hl, significant_cons_pos (l := ⟨.comma, [',']⟩) hcomma,
        significant_eq_nil hbehind, List.append_assoc, List.cons_append, List.nil_append]
    · rw [significant_append, significant_cons_pos hl, significant_eq_nil hbehind, List.getLast?_concat]
      rfl

/-- A comma that is put behind a token is a lexeme of its own. -/
lemma lex_insert_comma {L₁ L₂ : List Token} {t : Token} (hw : isWhole s) (hts : tokens s = L₁ ++ t :: L₂)
    (hsig : t.kind.isSignificant) :
    lex (Text.slice s 0 t.stop ++ ",".toList ++ Text.dropBytes t.stop s) =
      (L₁.map Token.lexeme ++ [t.lexeme]) ++ ⟨.comma, [',']⟩ :: L₂.map Token.lexeme := by
  have hsplit : lex s = (L₁.map Token.lexeme ++ [t.lexeme]) ++ L₂.map Token.lexeme := by
    rw [← map_lexeme_tokens, hts]
    simp
  have hleft := (isLexed_of_lex hsplit hw).left
  have hright := (isLexed_of_lex hsplit hw).right
  have hcut : s = joined (L₁.map Token.lexeme ++ [t.lexeme]) ++ joined (L₂.map Token.lexeme) := by
    rw [← joined_append, ← hsplit, joined_lex]
  have hstop : t.stop = (joined (L₁.map Token.lexeme ++ [t.lexeme])).width := by
    rw [stop_of_tokens_eq hts, List.map_append, List.map_singleton]
  have hslice : Text.slice s 0 t.stop = joined (L₁.map Token.lexeme ++ [t.lexeme]) := by
    rw [hstop]
    conv_lhs => rw [hcut]
    have h := @Text.slice_width_append [] (joined (L₁.map Token.lexeme ++ [t.lexeme])) (joined (L₂.map Token.lexeme))
    simpa using h
  have hdrop : Text.dropBytes t.stop s = joined (L₂.map Token.lexeme) := by
    rw [hstop]
    conv_lhs => rw [hcut]
    exact Text.dropBytes_width_append
  have hlast : ∀ l ∈ (lex (joined (L₁.map Token.lexeme ++ [t.lexeme]))).getLast?,
      l.precedes (',' :: joined (L₂.map Token.lexeme)) := by
    intro l hl
    rw [hleft.1, List.getLast?_concat, Option.mem_def, Option.some.injEq] at hl
    rw [← hl]
    exact precedes_comma hsig
  have hlex := lex_append hleft.isWhole hlast
  rw [hleft.1, lex_comma, hright.1] at hlex
  rw [hslice, hdrop, List.append_assoc, ← hlex]
  rfl

/-- **The lexemes of a body that gains entries.** -/
theorem lex_renderBody (hw : isWhole body) :
    isWhole (GrowingMap.renderBody body) ∧ ∃ K, Trimmed (lex body) K ∧ GainsComma K (lex (GrowingMap.renderBody body)) := by
  have hbody := (Text.trimEnd_append_spaceAtEnd (a := body)).symm
  have hlast : ∀ x ∈ (Text.trimEnd body).getLast?, Unicode.isSpace x = false := by
    intro x hx
    rw [Text.trimEnd, List.getLast?_reverse, Option.mem_def] at hx
    have := List.head?_dropWhile_not Unicode.isSpace body.reverse
    rw [hx] at this
    simpa using this
  rw [hbody] at hw
  obtain ⟨htrim, hkept⟩ := trimmed_lex hw Text.all_spaceAtEnd hlast
  rw [← hbody] at htrim
  generalize hnew : GrowingMap.renderBody body = new
  unfold GrowingMap.renderBody at hnew
  dsimp only at hnew
  generalize Text.trimEnd body = kept at htrim hkept hnew
  suffices h : isWhole new ∧ GainsComma (lex kept) (lex new) from ⟨h.1, _, htrim, h.2⟩
  rcases lastCodeToken?_cases hkept with ⟨hnone, hall⟩ | ⟨L₁, t, L₂, hts, hsome, hsig, hall⟩
  · rw [hnone] at hnew
    obtain rfl : kept = new := hnew
    refine ⟨hkept, ?_⟩
    have hcode : ∀ l ∈ lex kept, l.kind.isSignificant = false := by
      intro l hl
      rw [← map_lexeme_tokens] at hl
      obtain ⟨t, ht, rfl⟩ := List.mem_map.1 hl
      exact hall t ht
    rw [← List.nil_append (lex kept)]
    exact .same (by simp) hcode
  · have hlex : lex kept = (L₁.map Token.lexeme ++ [t.lexeme]) ++ L₂.map Token.lexeme := by
      rw [← map_lexeme_tokens, hts]
      simp
    have hbehind : ∀ l ∈ L₂.map Token.lexeme, l.kind.isSignificant = false := by
      intro l hl
      obtain ⟨u, hu, rfl⟩ := List.mem_map.1 hl
      exact hall u hu
    rw [hsome] at hnew
    dsimp only at hnew
    split at hnew
    · next hk =>
      subst hnew
      refine ⟨hkept, ?_⟩
      rw [hlex]
      refine .same (fun l hl => ?_) hbehind
      rw [List.getLast?_concat, Option.mem_def, Option.some.injEq] at hl
      rw [← hl]
      exact hk
    · next hk =>
      rw [not_or] at hk
      have hlexnew := lex_insert_comma hkept hts hsig
      rw [hnew] at hlexnew
      constructor
      · rw [isWhole_iff, hlexnew]
        intro l hl
        rw [List.mem_append, List.mem_cons] at hl
        have hlexed := isLexed_of_lex hlex hkept
        rcases hl with hl | rfl | hl
        · exact hlexed.left.2 l hl
        · rfl
        · exact hlexed.right.2 l hl
      · rw [hlexnew, hlex, List.append_assoc, List.append_assoc]
        exact .comma hsig (fun h => hk.1 h) hbehind

/-- The lexemes of a map literal that gains entries. -/
lemma lex_growingMap {entries : List (Text × EntryValue)} {z : Text} (hbody : isWhole (GrowingMap.renderBody body))
    (hentries : ∀ e ∈ entries, GrowingMap.IsPlain e) :
    lex (GrowingMap.render ⟨body, entries⟩ ++ z) = ⟨.lbrace, ['{']⟩ :: (lex (GrowingMap.renderBody body) ++
      ⟨.newline, ['\n']⟩ :: (entries.flatMap GrowingMap.entryLexemes ++ ⟨.rbrace, ['}']⟩ :: lex z)) := by
  rw [render_growingMap, GrowingMap.bodyText]
  simp only [List.cons_append, List.append_assoc, List.nil_append]
  rw [lex_lbrace, lex_append_newline hbody, GrowingMap.lex_entries_append hentries, lex_rbrace]

end RuleWeaver
