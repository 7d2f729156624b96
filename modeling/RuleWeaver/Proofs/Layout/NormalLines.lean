import RuleWeaver.Proofs.Layout.Code

/-!
# Lines of a text that is laid out

The lines of a text that is laid out are normal (`layout_has_normal_lines`): they do not end in blanks, empty lines stand alone
and not at the beginning, and the text ends with one line break.  Exempt is what raw strings and block comments hold.  A line
break of the text is either one of the code, where lines are as layout leaves them (`AreLines`), or inside such a token
(`exists_break`).
-/

namespace RuleWeaver

open Source (Lexeme Token lex tokens tokenize joined lineBreak isTrimmed IsLexed isWhole)

variable {a b p q s out : Text} {c : Char} {ts : List Token} {A B L X : List Lexeme} {l : Lexeme} {e : Bool}

/-! ### Lines -/

/-- Whether a token is a raw string or a block comment that spans lines. -/
def Source.Token.SpansLines (t : Token) : Prop := (t.kind = .rawString ∨ t.kind = .blockComment) ∧ '\n' ∈ t.text

/-- Whether an offset is inside a token. -/
def Source.Token.Holds (t : Token) (offset : Nat) : Prop := t.start < offset ∧ offset < t.stop

/-- Whether a text with certain tokens has normal lines. -/
structure HasNormalLines (s : Text) (ts : List Token) : Prop where
  /-- A line ends in no blank, unless its end is inside a token. -/
  noBlankAtEnd : ∀ a b, s = a ++ '\n' :: b → (∀ t ∈ ts, t.SpansLines → ¬ t.Holds a.width) → ∀ c ∈ a.getLast?, c ≠ ' ' ∧ c ≠ '\t'
  /-- Two empty lines in a row are inside a token. -/
  emptyLinesAlone : ∀ a b, s = a ++ '\n' :: '\n' :: b → (∀ c ∈ a.getLast?, c = '\n') →
    ∃ t ∈ ts, t.SpansLines ∧ t.Holds a.width ∧ t.Holds (a.width + 1)
  /-- The first line is not empty. -/
  noEmptyLineFirst : ∃ c t, s = c :: t ∧ c ≠ '\n'
  /-- There is one line break at the end. -/
  oneBreakAtEnd : ∃ t c, s = t ++ [c, '\n'] ∧ c ≠ '\n'

/-! ### Line breaks -/

/-- A line break in a lexeme is the lexeme, or has other characters of it on both sides. -/
lemma break_of_lexeme (hL : IsLexed L) (hl : l ∈ L) (ht : l.text = p ++ '\n' :: q) : (l = lineBreak ∧ p = [] ∧ q = []) ∨
    ((l.kind = .rawString ∨ l.kind = .blockComment) ∧ p ≠ [] ∧ ∃ z x, q = z ++ [x] ∧ x ≠ '\n') := by
  have hmem : '\n' ∈ l.text := by simp [ht]
  cases isLexed_form hL hl with
  | blank _ hblank => exact absurd (List.all_eq_true.1 hblank _ hmem) (by decide)
  | lineBreak heq =>
    rw [heq] at ht
    have hlength := congrArg List.length ht
    rw [List.length_append, List.length_cons] at hlength
    have hp : p.length = 0 := by simp only [lineBreak, List.length_singleton] at hlength; omega
    have hq : q.length = 0 := by simp only [lineBreak, List.length_singleton] at hlength; omega
    exact .inl ⟨heq, List.length_eq_zero_iff.1 hp, List.length_eq_zero_iff.1 hq⟩
  | comment t heq hnot =>
    rw [heq] at hmem
    simp [hnot] at hmem
  | short _ hnot _ => exact absurd hmem hnot
  | long hlong u x hx htext =>
    have hbreak : x ≠ '\n' := by rintro rfl; rcases hx with hx | hx <;> exact absurd hx (by decide)
    rw [htext] at ht
    refine .inr ⟨hlong, ?_, ?_⟩
    · rintro rfl
      exact hbreak (List.cons.inj ht).1
    · have hlast := congrArg List.getLast? ht
      rw [← List.cons_append, List.getLast?_concat, List.getLast?_append, List.getLast?_cons] at hlast
      rcases List.eq_nil_or_concat' q with rfl | ⟨z, y, rfl⟩
      · exact absurd (by simpa using hlast) hbreak
      · refine ⟨z, y, rfl, ?_⟩
        rw [List.getLast?_concat] at hlast
        obtain rfl : x = y := by simpa using hlast
        exact hbreak

/-- Lexemes whose text begins with a line break begin with one. -/
lemma exists_lineBreak_cons (hL : IsLexed L) (h : (joined L).head? = some '\n') : ∃ L', L = lineBreak :: L' := by
  rcases L with _ | ⟨l, L⟩
  · cases h
  obtain ⟨c, u, htext⟩ := List.exists_cons_of_ne_nil (isLexed_text_ne_nil hL (l := l) (by simp))
  rw [Source.joined_cons, htext, List.cons_append, List.head?_cons, Option.some.injEq] at h
  subst h
  rcases break_of_lexeme (p := []) hL (l := l) (by simp) htext with ⟨rfl, -, -⟩ | ⟨-, hne, -⟩
  · exact ⟨L, rfl⟩
  · exact absurd rfl hne

/-- **A line break is one of the code, or inside a token.** -/
lemma exists_break (hs : isWhole s) (h : s = a ++ '\n' :: b) :
    (∃ A B, lex s = A ++ lineBreak :: B ∧ a = joined A ∧ b = joined B) ∨
      ∃ t ∈ tokens s, t.SpansLines ∧ t.Holds a.width ∧ (b.head? = some '\n' → t.Holds (a.width + 1)) := by
  obtain ⟨A, l, B, p, q, hlex, ht, rfl, rfl⟩ := Source.exists_lexeme_at ((Source.joined_lex (s := s)).trans h)
  have hlexed := Source.isLexed_lex hs
  rcases break_of_lexeme hlexed (l := l) (by rw [hlex]; simp) ht with ⟨rfl, rfl, rfl⟩ | ⟨hk, hp, z, x, rfl, hx⟩
  · exact .inl ⟨A, B, hlex, by simp, rfl⟩
  · have hpos : Text.width p ≠ 0 := mt Text.width_eq_zero_iff.1 hp
    have hxpos := x.utf8Size_pos
    have hbreak : Char.utf8Size '\n' = 1 := rfl
    refine .inr ⟨⟨l.kind, l.text, (joined A).width⟩, Source.mem_tokens.2 ⟨A, B, hlex, rfl⟩, ⟨hk, by simp [ht]⟩, ?_, fun hb => ?_⟩
    · simp only [Token.Holds, Token.stop, ht, Text.width_append, Text.width_cons, Text.width_nil]
      omega
    · -- the character behind the line break is not the last one of the token
      have hz : z ≠ [] := by
        rintro rfl
        exact hx (by simpa using hb)
      have hzpos : Text.width z ≠ 0 := mt Text.width_eq_zero_iff.1 hz
      simp only [Token.Holds, Token.stop, ht, Text.width_append, Text.width_cons, Text.width_nil]
      omega

/-- Lexemes whose text ends with a line break end with one. -/
lemma endsLine_of_getLast? (hA : IsLexed A) (h : ∀ c ∈ (joined A).getLast?, c = '\n') : EndsLine A := by
  intro l hl
  by_contra hne
  obtain ⟨A', rfl⟩ := List.getLast?_eq_some_iff.1 hl
  have htext := isLexed_text_ne_nil hA (l := l) (by simp)
  obtain ⟨x, hx⟩ : ∃ x, l.text.getLast? = some x := Option.isSome_iff_exists.1 (by simp [htext])
  have hlast : (joined (A' ++ [l])).getLast? = some x := by
    rw [Source.joined_append, Source.joined_cons, Source.joined_nil, List.append_nil, List.getLast?_append_of_ne_nil _ htext, hx]
  obtain rfl := h x hlast
  exact last_ne_break hA (l := l) (by simp) hne hx

/-! ### Lines as layout leaves them -/

/-- Behind a line the lines go on. -/
lemma AreLines.behind (h : AreLines e (A ++ B)) (hA : EndsLine A) : ∃ e', AreLines e' B := by
  generalize hL : A ++ B = L at h
  induction h generalizing A with
  | @nil e =>
    rw [(List.append_eq_nil_iff.1 hL).2]
    exact ⟨e, .nil⟩
  | @line e X N hX hne htrim h ih =>
    -- a line break in front of what follows is not one of the first line
    have hnot : ∀ Y, Y ≠ [] → EndsLine Y → ∀ Z, X ≠ Y ++ Z := by
      rintro Y hY hend Z rfl
      rcases List.eq_nil_or_concat' Y with rfl | ⟨Y, l, rfl⟩
      · exact hY rfl
      · exact hX l (by simp) (by rw [hend l (by simp)]; rfl)
    by_cases hAne : A = []
    · subst hAne
      rw [List.nil_append] at hL
      rw [hL]
      exact ⟨e, .line hX hne htrim h⟩
    rcases List.append_eq_append_iff.1 hL with ⟨Y, hXA, -⟩ | ⟨Y, rfl, hrest⟩
    · exact absurd hXA (hnot A hAne hA Y)
    · rcases Y with _ | ⟨m, Y⟩
      · rw [List.append_nil] at hA hAne
        exact absurd (List.append_nil X).symm (hnot X hAne hA [])
      · obtain ⟨rfl, htail⟩ := List.cons.inj hrest
        refine ih (fun l hl => hA l ?_) htail.symm
        rw [List.getLast?_append, List.getLast?_cons, hl]
        rfl
  | @empty N h ih =>
    rcases A with _ | ⟨l, A⟩
    · rw [List.nil_append] at hL
      rw [hL]
      exact ⟨true, .empty h⟩
    · obtain ⟨rfl, hrest⟩ := List.cons.inj hL
      refine ih (fun m hm => hA m ?_) hrest
      rw [List.getLast?_cons, hm]
      rfl

/-- The last line of lexemes. -/
lemma exists_lastLine (A : List Lexeme) : ∃ A' C, A = A' ++ C ∧ EndsLine A' ∧ lineBreak ∉ C := by
  induction A using List.reverseRecOn with
  | nil => exact ⟨[], [], rfl, by simp [EndsLine], by simp⟩
  | append_singleton A l ih =>
    by_cases hl : l = lineBreak
    · exact ⟨A ++ [l], [], by simp, by simp [EndsLine, hl], by simp⟩
    · obtain ⟨A', C, rfl, hA', hC⟩ := ih
      exact ⟨A', C ++ [l], by simp, hA', by simp [hC, Ne.symm hl]⟩

/-- The first line break tells what is in front of it. -/
lemma append_lineBreak_inj (hA : lineBreak ∉ A) (hX : lineBreak ∉ X) (h : A ++ lineBreak :: B = X ++ lineBreak :: L) :
    A = X ∧ B = L := by
  rcases List.append_eq_append_iff.1 h with ⟨Y, rfl, hY⟩ | ⟨Y, rfl, hY⟩
  · rcases Y with _ | ⟨l, Y⟩
    · exact ⟨(List.append_nil A).symm, (List.cons.inj hY).2⟩
    · exact absurd (by simp [(List.cons.inj hY).1]) hX
  · rcases Y with _ | ⟨l, Y⟩
    · exact ⟨List.append_nil X, (List.cons.inj hY).2.symm⟩
    · exact absurd (by simp [(List.cons.inj hY).1]) hA

/-- What begins with a line break is an empty line. -/
lemma AreLines.of_lineBreak (h : AreLines e (lineBreak :: B)) : e = true ∧ AreLines false B := by
  generalize hL : lineBreak :: B = L at h
  cases h with
  | nil => cases hL
  | @line _ X N hX hne htrim h =>
    rcases X with _ | ⟨l, X⟩
    · exact absurd rfl hne
    · exact absurd rfl (hX lineBreak (by rw [(List.cons.inj hL).1]; simp))
  | empty h => exact ⟨rfl, (List.cons.inj hL).2 ▸ h⟩

/-- The first line does not end in a blank. -/
lemma AreLines.not_isTrimmed_line (h : AreLines e (A ++ lineBreak :: B)) (hA : lineBreak ∉ A) :
    ∀ c ∈ (joined A).getLast?, isTrimmed c = false := by
  generalize hL : A ++ lineBreak :: B = L at h
  cases h with
  | nil => simp at hL
  | @line _ X N hX hne htrim h =>
    obtain ⟨rfl, -⟩ := append_lineBreak_inj hA (fun hmem => hX lineBreak hmem rfl) hL
    obtain ⟨t, w, -, -, ht, hlast⟩ := exists_trimBlanks (joined A)
    rwa [← ht, htrim] at hlast
  | @empty N h =>
    obtain ⟨rfl, -⟩ := append_lineBreak_inj (X := []) hA (by simp) hL
    simp

/-- In front of a line break there is no blank. -/
lemma AreLines.not_isTrimmed (h : AreLines e (A ++ lineBreak :: B)) : ∀ c ∈ (joined A).getLast?, isTrimmed c = false := by
  obtain ⟨A', C, rfl, hA', hC⟩ := exists_lastLine A
  rw [List.append_assoc] at h
  obtain ⟨e', h⟩ := h.behind hA'
  have hline := h.not_isTrimmed_line hC
  intro c hc
  rw [Source.joined_append, List.getLast?_append] at hc
  cases hlast : (joined C).getLast? with
  | some d =>
    rw [hlast] at hc
    exact hline c (hlast.trans hc)
  | none =>
    -- the line is empty, and what is in front of it ends with a line break
    rw [hlast, Option.none_or] at hc
    rcases List.eq_nil_or_concat' A' with rfl | ⟨A', l, rfl⟩
    · cases hc
    · obtain rfl : l = lineBreak := hA' l (by simp)
      rw [Source.joined_append, List.getLast?_append_of_ne_nil _ (by simp [lineBreak])] at hc
      obtain rfl : '\n' = c := by simpa [lineBreak] using hc
      rfl

/-! ### The text -/

/-- A line break outside of tokens has no blank in front of it. -/
lemma AreLines.noBlankAtEnd (h : AreLines e (lex s)) (hs : isWhole s) (heq : s = a ++ '\n' :: b)
    (hout : ∀ t ∈ tokens s, t.SpansLines → ¬ t.Holds a.width) : ∀ c ∈ a.getLast?, c ≠ ' ' ∧ c ≠ '\t' := by
  intro c hc
  rcases exists_break hs heq with ⟨A, B, hlex, rfl, -⟩ | ⟨t, ht, hspans, hholds, -⟩
  · rw [hlex] at h
    have hblank := h.not_isTrimmed c hc
    rw [isTrimmed, Bool.or_eq_false_iff] at hblank
    simpa using hblank
  · exact absurd hholds (hout t ht hspans)

/-- Two line breaks behind the beginning of a line are inside a token. -/
lemma AreLines.exists_holding (h : AreLines e (lex s)) (hs : isWhole s) (heq : s = a ++ '\n' :: '\n' :: b)
    (hstart : ∀ c ∈ a.getLast?, c = '\n') : ∃ t ∈ tokens s, t.SpansLines ∧ t.Holds a.width ∧ t.Holds (a.width + 1) := by
  rcases exists_break hs heq with ⟨A, B, hlex, rfl, hB⟩ | ⟨t, ht, hspans, hholds, hnext⟩
  · -- both are code, so the second one ends an empty line behind another one
    have hlexed := Source.isLexed_of_lex hlex hs
    rw [hlex] at h
    obtain ⟨B, rfl⟩ := exists_lineBreak_cons (IsLexed.right (A := A ++ [lineBreak]) (by simpa using hlexed)) (by rw [← hB]; rfl)
    obtain ⟨e, hbehind⟩ := h.behind (endsLine_of_getLast? hlexed.left hstart)
    exact absurd hbehind.of_lineBreak.2.of_lineBreak.1 Bool.false_ne_true
  · exact ⟨t, ht, hspans, hholds, hnext rfl⟩

/-- The first line is not empty where no empty line may come. -/
lemma AreLines.noEmptyLineFirst (h : AreLines false (lex s)) (hs : isWhole s) (hne : s ≠ []) : ∃ c t, s = c :: t ∧ c ≠ '\n' := by
  obtain ⟨c, t, rfl⟩ := List.exists_cons_of_ne_nil hne
  refine ⟨c, t, rfl, ?_⟩
  rintro rfl
  obtain ⟨L, hL⟩ := exists_lineBreak_cons (Source.isLexed_lex hs) (by rw [Source.joined_lex]; rfl)
  rw [hL] at h
  exact absurd h.of_lineBreak.1 Bool.false_ne_true

/-- What is laid out ends with a line break, and what is in front of that does not. -/
lemma exists_of_layout_break (h : layout s = .ok out) : ∃ body, out = body ++ ['\n'] ∧ ∀ c ∈ body.getLast?, c ≠ '\n' := by
  obtain ⟨-, ts, -, -, rfl⟩ := exists_of_layout h
  refine ⟨_, rfl, fun c hc => ?_⟩
  rw [List.getLast?_reverse] at hc
  have hfirst := List.head?_dropWhile_not (· = '\n') (layoutLines (keptSpans ts) 0 false true (physicalLines (unixText s))).reverse
  rw [Option.mem_def.1 hc] at hfirst
  simpa using hfirst

/-- **Normal lines.**  What is laid out has tokens, and with them it has normal lines. -/
theorem layout_has_normal_lines (h : layout s = .ok out) : ∃ us, tokenize out = .ok us ∧ HasNormalLines out us := by
  obtain ⟨-, -, -, -, -, -, hlines, hw⟩ := layout_eq_ok h
  have hmem : ∀ t ∈ tokens out, t.SpansLines → t ∈ (tokens out).filter (·.kind ≠ .blank) := by
    intro t ht hspans
    refine List.mem_filter.2 ⟨ht, ?_⟩
    rcases hspans.1 with hk | hk <;> rw [hk] <;> decide
  obtain ⟨body, hout, hbody⟩ := exists_of_layout_break h
  have hfirst := hlines.noEmptyLineFirst hw (by rw [hout]; simp)
  refine ⟨_, tokenize_of_layout h, fun a b heq hheld => ?_, fun a b heq hstart => ?_, hfirst, ?_⟩
  · exact hlines.noBlankAtEnd hw heq fun t ht hspans => hheld t (hmem t ht hspans) hspans
  · obtain ⟨t, ht, hspans, hholds⟩ := hlines.exists_holding hw heq hstart
    exact ⟨t, hmem t ht hspans, hspans, hholds⟩
  · rcases List.eq_nil_or_concat' body with rfl | ⟨t, c, rfl⟩
    · -- the line break at the end is not the whole text
      obtain ⟨c, t, heq, hc⟩ := hfirst
      rw [hout] at heq
      exact absurd (List.cons.inj heq).1.symm hc
    · exact ⟨t, c, by rw [hout]; simp, hbody c (by simp)⟩

/-- A text with runs of blank lines in front of a block comment and a raw string, inside of them and behind them. -/
def looseText : Text := "\n \npackage a \n\n\n\n/* b \n\n\n*/ \t\n\n\n\nvar x = \x60\n\n \n\x60 \n\n\n"

/-- That text, laid out. -/
def closeText : Text := "package a\n\n/* b \n\n\n*/\n\nvar x = \x60\n\n \n\x60\n"

/-- Only the runs inside the comment and the string stay. -/
theorem closeText_has_normal_lines : layout looseText = .ok closeText ∧
    ∃ us, tokenize closeText = .ok us ∧ HasNormalLines closeText us := by
  have h : layout looseText = .ok closeText := by
    apply ok_of_toOption
    unfold looseText closeText
    repeat rw [String.toList_ofList]
    decide +kernel
  exact ⟨h, layout_has_normal_lines h⟩

end RuleWeaver
