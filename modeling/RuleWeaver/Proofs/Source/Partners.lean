import RuleWeaver.Proofs.Source.Bodies
import RuleWeaver.Proofs.Source.Nesting

/-!
# Brackets and their partners

Three readers look for the bracket that closes an open one.  The check keeps a stack of open brackets, `closingOffset` counts
them in the text from the open bracket on, and `Cursor.group` counts them among the tokens with statement ends made explicit.
In text that has tokens all of them find the same bracket (`brackets_have_one_partner`).
-/

namespace RuleWeaver.Source

variable {s : Text} {t u v w : Token} {ts stack : List Token}

/-! ### Partners -/

/-- Whether a token closes the bracket that another one opens: their classes match, and so do the brackets in between. -/
def ArePartners (ts : List Token) (t u : Token) : Prop :=
  ∃ A B C, ts = A ++ t :: (B ++ u :: C) ∧ t.kind.closer? = some u.kind ∧ WellNested (bracketKinds (B.map Token.lexeme))

/-- The pairs of brackets that the check with a stack makes: each closing bracket with the one that is open last. -/
def bracketPairs : List Token → List Token → List (Token × Token)
  | _, [] => []
  | stack, t :: ts =>
    if t.kind.isOpen then bracketPairs (t :: stack) ts
    else if t.kind.isClose then
      match stack with
      | o :: stack => (o, t) :: bracketPairs stack ts
      | [] => []
    else bracketPairs stack ts

/-- A bracket has one partner. -/
lemma ArePartners.unique (hnodup : ts.Nodup) (h : ArePartners ts t u) (h' : ArePartners ts t v) : u = v := by
  obtain ⟨A, B, C, rfl, hc, hB⟩ := h
  obtain ⟨A', B', C', e, hc', hB'⟩ := h'
  rw [List.perm_middle.nodup_iff, List.nodup_cons, List.mem_append, not_or] at hnodup
  obtain ⟨-, -, hbehind⟩ := (List.append_cons_inj_of_notMem hnodup.1.1 hnodup.1.2).1 e
  have hkinds := congrArg (List.map Token.lexeme) hbehind
  rw [List.map_append, List.map_append, List.map_cons, List.map_cons] at hkinds
  obtain ⟨hinside, -, -⟩ := eq_of_closed hkinds (isBalanced_iff_wellNested.2 hB) (isBalanced_iff_wellNested.2 hB')
    (isOpen_of_closer? hc).2.1 (isOpen_of_closer? hc').2.1
  have hlength : B.length = B'.length := by
    rw [← List.length_map (f := Token.lexeme), hinside, List.length_map]
  exact (List.cons.inj (List.append_inj hbehind hlength).2).1

lemma ArePartners.cons (h : ArePartners ts t u) : ArePartners (w :: ts) t u := by
  obtain ⟨A, B, C, rfl, h⟩ := h
  exact ⟨w :: A, B, C, rfl, h⟩

lemma ArePartners.filter (h : ArePartners ts t u) : ArePartners (ts.filter (·.kind ≠ .blank)) t u := by
  obtain ⟨A, B, C, rfl, hc, hB⟩ := h
  obtain ⟨ho, hclose, -⟩ := isOpen_of_closer? hc
  have ht : t.kind ≠ .blank := by rintro hk; rw [hk] at ho; cases ho
  have hu : u.kind ≠ .blank := by rintro hk; rw [hk] at hclose; cases hclose
  refine ⟨A.filter (·.kind ≠ .blank), B.filter (·.kind ≠ .blank), C.filter (·.kind ≠ .blank), ?_, hc, ?_⟩
  · rw [List.filter_append, List.filter_cons_of_pos (by simpa using ht), List.filter_append, List.filter_cons_of_pos (by simpa using hu)]
  · rwa [bracketKinds_filter_blank]

/-- Whether a token closes a bracket on the stack: the brackets above it are closed in between. -/
def ClosesOnStack (stack ts : List Token) (t u : Token) : Prop :=
  ∃ S S' B C, stack = S ++ t :: S' ∧ ts = B ++ u :: C ∧ t.kind.closer? = some u.kind ∧
    isBalanced (S.map (·.kind)) (B.map Token.lexeme)

/-- The pairs of the check with a stack are partners, or close a bracket that was open before. -/
lemma arePartners_of_mem_bracketPairs (hb : isBalanced (stack.map (·.kind)) (ts.map Token.lexeme))
    (h : (t, u) ∈ bracketPairs stack ts) : ArePartners ts t u ∨ ClosesOnStack stack ts t u := by
  induction ts generalizing stack with
  | nil => simp [bracketPairs] at h
  | cons w ts ih =>
    simp only [List.map_cons, isBalanced, Token.lexeme_kind] at hb
    unfold bracketPairs at h
    by_cases ho : w.kind.isOpen
    · simp only [ho, if_true] at hb h
      rcases @ih (w :: stack) hb h with h | ⟨S, S', B, C, e, rfl, hc, hB⟩
      · exact .inl h.cons
      rcases S with _ | ⟨x, S⟩
      · obtain ⟨rfl, rfl⟩ := List.cons.inj e
        exact .inl ⟨[], B, C, rfl, hc, isBalanced_iff_wellNested.1 hB⟩
      · obtain ⟨rfl, rfl⟩ := List.cons.inj e
        exact .inr ⟨S, S', w :: B, C, rfl, rfl, hc, by simpa [isBalanced, ho] using hB⟩
    by_cases hclose : w.kind.isClose
    · simp only [ho, hclose, if_true, if_false, Bool.false_eq_true] at hb h
      rcases stack with _ | ⟨o, stack⟩
      · cases hb
      rw [List.map_cons, Bool.and_eq_true] at hb
      have hcloser := of_decide_eq_true hb.1
      rcases List.mem_cons.1 h with h | h
      · cases h
        exact .inr ⟨[], stack, [], ts, rfl, rfl, hcloser, rfl⟩
      rcases ih hb.2 h with h | ⟨S, S', B, C, rfl, rfl, hc, hB⟩
      · exact .inl h.cons
      · exact .inr ⟨o :: S, S', w :: B, C, rfl, rfl, hc, by simp [isBalanced, ho, hclose, hcloser, hB]⟩
    · simp only [ho, hclose, if_false, Bool.false_eq_true] at hb h
      rcases ih hb h with h | ⟨S, S', B, C, rfl, rfl, hc, hB⟩
      · exact .inl h.cons
      · exact .inr ⟨S, S', w :: B, C, rfl, rfl, hc, by simpa [isBalanced, ho, hclose] using hB⟩

/-- Where brackets match, the check with a stack leaves no open bracket alone. -/
lemma exists_mem_bracketPairs (hb : isBalanced (stack.map (·.kind)) (ts.map Token.lexeme))
    (ht : t ∈ stack ∨ t ∈ ts ∧ t.kind.isOpen) : ∃ u, (t, u) ∈ bracketPairs stack ts := by
  induction ts generalizing stack with
  | nil =>
    obtain rfl : stack = [] := by simpa [isBalanced] using hb
    simp at ht
  | cons w ts ih =>
    simp only [List.map_cons, isBalanced, Token.lexeme_kind] at hb
    have hrest : t ≠ w → t ∈ w :: ts ∧ t.kind.isOpen → t ∈ ts ∧ t.kind.isOpen := fun hne h =>
      ⟨(List.mem_cons.1 h.1).resolve_left hne, h.2⟩
    unfold bracketPairs
    by_cases ho : w.kind.isOpen
    · simp only [ho, if_true] at hb ⊢
      refine @ih (w :: stack) hb ?_
      by_cases hw : t = w
      · exact .inl (hw ▸ List.mem_cons_self)
      · exact ht.imp (List.mem_cons_of_mem _) (hrest hw)
    have ht : t ∈ stack ∨ t ∈ ts ∧ t.kind.isOpen := ht.imp_right fun h => hrest (by rintro rfl; exact ho h.2) h
    by_cases hclose : w.kind.isClose
    · simp only [ho, hclose, if_true, if_false, Bool.false_eq_true] at hb ⊢
      rcases stack with _ | ⟨o, stack⟩
      · cases hb
      rw [List.map_cons, Bool.and_eq_true] at hb
      by_cases htop : t = o
      · exact ⟨w, htop ▸ List.mem_cons_self⟩
      · obtain ⟨u, hu⟩ := ih hb.2 (ht.imp_left fun h => (List.mem_cons.1 h).resolve_left htop)
        exact ⟨u, List.mem_cons_of_mem _ hu⟩
    · simp only [ho, hclose, if_false, Bool.false_eq_true] at hb ⊢
      exact ih hb ht

/-- Where brackets match, an open bracket has a partner, with which the check puts it together. -/
lemma exists_partner (hnodup : ts.Nodup) (hb : isBalanced [] (ts.map Token.lexeme)) (ht : t ∈ ts) (ho : t.kind.isOpen) :
    ∃ u, ArePartners ts t u ∧ ∀ v, (t, v) ∈ bracketPairs [] ts ↔ v = u := by
  have hstack : isBalanced (([] : List Token).map (·.kind)) (ts.map Token.lexeme) := hb
  have hpartners : ∀ {v}, (t, v) ∈ bracketPairs [] ts → ArePartners ts t v := fun h =>
    (arePartners_of_mem_bracketPairs hstack h).resolve_right fun ⟨S, S', _, _, e, _⟩ => by simp at e
  obtain ⟨u, hu⟩ := exists_mem_bracketPairs hstack (.inr ⟨ht, ho⟩)
  exact ⟨u, hpartners hu, fun v => ⟨fun hv => (hpartners hv).unique hnodup (hpartners hu), fun e => e ▸ hu⟩⟩

/-! ### Counting -/

lemma closingOffset_eq (hs : isWhole s) (ho : t.kind.isOpen) (h : ArePartners (tokens s) t u) :
    closingOffset s t.start = .ok u.start := by
  obtain ⟨A, B, C, htokens, hc, hB⟩ := h
  have hu : tokens s = (A ++ t :: B) ++ u :: C := by
    rw [htokens]
    simp
  have hstray : ∀ m ∈ B.map Token.lexeme, m.kind ≠ .stray := by
    intro m hm
    refine kind_ne_stray (isWhole_iff.1 hs m ?_)
    rw [← map_lexeme_tokens, hu]
    simp [hm]
  have ht : t.lexeme.kind ≠ .stray := by
    rintro hk
    rw [Token.lexeme_kind] at hk
    rw [hk] at ho
    cases ho
  rw [closingOffset, lex_dropBytes_start htokens, List.map_append, List.map_cons, place_cons, closing]
  simp only [Token.lexeme_kind] at ht ⊢
  rw [if_neg ht, if_pos ho, show 0 + 1 = ([] : List Kind).length + 1 from rfl,
    closing_append (isBalanced_iff_wellNested.2 hB) hstray (isOpen_of_closer? hc).2.1, start_of_tokens_eq htokens, start_of_tokens_eq hu]
  simp [Nat.add_assoc]

/-! ### Groups of statement tokens -/

/-- A statement end that does not stand in the text is where a line break is, or at the end of the text. -/
lemma start_of_mem_endStatements {size : Nat} {ending : Bool} (h : t ∈ endStatements size ending ts) :
    t ∈ ts ∨ t.start = size ∨ ∃ w ∈ ts, w.breaksLine ∧ t.start = w.start := by
  induction ts generalizing ending with
  | nil =>
    unfold endStatements at h
    split at h
    · rw [List.mem_singleton.1 h]
      exact .inr (.inl rfl)
    · cases h
  | cons w ts ih =>
    have ih := fun ending h =>
      (@ih ending h).imp (List.mem_cons_of_mem w) (Or.imp_right (Exists.imp fun v => And.imp_left (List.mem_cons_of_mem w)))
    rw [endStatements] at h
    split at h
    · next hbreak =>
      split at h
      · rcases List.mem_cons.1 h with rfl | h
        · exact .inr (.inr ⟨w, List.mem_cons_self, hbreak, rfl⟩)
        · exact ih _ h
      · exact ih _ h
    split at h
    · exact ih _ h
    · rcases List.mem_cons.1 h with rfl | h
      · exact .inl List.mem_cons_self
      · exact ih _ h

/-- A statement token where an open bracket begins is that bracket. -/
lemma eq_of_start_of_isOpen (ht : t ∈ tokens s) (ho : t.kind.isOpen) (hu : u ∈ statementTokens s) (h : u.start = t.start) : u = t := by
  rcases start_of_mem_endStatements hu with hu | hsize | ⟨w, hw, hbreak, hstart⟩
  · exact eq_of_start_eq (List.mem_filter.1 hu).1 ht h
  · have := (Token.isIn_of_mem_tokens ht).2.le_width
    have := start_lt_stop ht
    omega
  · obtain rfl : w = t := eq_of_start_eq (List.mem_filter.1 hw).1 ht (hstart.symm.trans h)
    revert ho hbreak
    unfold Token.breaksLine
    cases w.kind <;> simp [Kind.isOpen]

lemma nodup_tokens : (tokens s).Nodup := by
  have h : (tokens s).Pairwise fun t u => t.stop ≤ u.start := pairwise_place
  refine h.imp_of_mem fun {t u} ht hu hle => ?_
  rintro rfl
  exact absurd (start_lt_stop ht) (Nat.not_lt.2 hle)

/-- **A bracket has one partner, which every reader finds.**  In text that has tokens, an opening bracket is put together with
one closing bracket by the check with a stack: their classes match, and the brackets in between nest.  Counting brackets in the
text from the opening one on ends at that one, and where the declarations are read, the group that the opening bracket begins
goes from the one to the end of the other. -/
theorem brackets_have_one_partner (h : tokenize s = .ok ts) (ht : t ∈ ts) (ho : t.kind.isOpen) :
    ∃ u, ArePartners ts t u ∧ (∀ v, (t, v) ∈ bracketPairs [] ts ↔ v = u) ∧ closingOffset s t.start = .ok u.start ∧
      ∀ c : Cursor, c.ahead <:+ endStatements s.width false ts → c.ahead.head?.map Token.start = some t.start →
        ∃ g c', c.group = .ok (g, c') ∧ g.span = ⟨t.start, u.stop⟩ := by
  obtain ⟨hwhole, hbalanced, rfl⟩ := tokenize_eq_ok_iff.1 h
  have ht' : t ∈ tokens s := (List.mem_filter.1 ht).1
  have hkept : isBalanced [] (((tokens s).filter (·.kind ≠ .blank)).map Token.lexeme) := by
    rw [isBalanced_iff_wellNested, bracketKinds_tokens, ← isBalanced_iff_wellNested]
    exact hbalanced
  obtain ⟨u, hu, hpairs⟩ := exists_partner (nodup_tokens.sublist List.filter_sublist) hkept ht ho
  have hpartners : ArePartners (tokens s) t u := by
    obtain ⟨v, hv, -⟩ := exists_partner nodup_tokens (by rwa [map_lexeme_tokens]) ht' ho
    rwa [hu.unique (nodup_tokens.sublist List.filter_sublist) hv.filter]
  refine ⟨u, hu, hpairs, closingOffset_eq hwhole ho hpartners, fun c hc hhead => ?_⟩
  obtain ⟨o, hfirst, hstart⟩ := Option.map_eq_some_iff.1 hhead
  obtain ⟨rest, hahead⟩ := List.head?_eq_some_iff.1 hfirst
  obtain ⟨vs, hvs⟩ := hc
  rw [hahead] at hvs
  obtain rfl : o = t := eq_of_start_of_isOpen ht' ho (by rw [statementTokens, ← hvs]; simp) hstart
  have hsplit : statementTokens s = vs ++ o :: rest := hvs.symm
  obtain ⟨inner, close, behind, L, M, N, hcut, htokens, hM, hcloser⟩ := exists_group hbalanced hsplit ho
  obtain rfl : close = u :=
    ArePartners.unique nodup_tokens ⟨L, M, N, htokens, hcloser, isBalanced_iff_wellNested.1 hM⟩ hpartners
  exact ⟨⟨inner, o.start, close.stop⟩, ⟨close.stop, behind⟩, by rw [Cursor.group, hahead]; simp only [hcut], rfl⟩

/-- An open parenthesis with a line break, brackets, and a comment that holds a bracket behind it. -/
def callText : Text := "f(\n[a]/*)*/)\n"

/-- The parenthesis is closed by the last one. -/
theorem callText_has_partner : ∃ ts u, tokenize callText = .ok ts ∧ ⟨.lparen, "(", 1⟩ ∈ ts ∧
    ArePartners ts ⟨.lparen, "(", 1⟩ u ∧ closingOffset callText 1 = .ok u.start ∧ u.start = 11 := by
  have htokens : tokenize callText = .ok [⟨.ident, "f", 0⟩, ⟨.lparen, "(", 1⟩, ⟨.newline, "\n", 2⟩, ⟨.lbracket, "[", 3⟩, ⟨.ident, "a", 4⟩,
      ⟨.rbracket, "]", 5⟩, ⟨.blockComment, "/*)*/", 6⟩, ⟨.rparen, ")", 11⟩, ⟨.newline, "\n", 12⟩] := by
    apply ok_of_toOption
    unfold callText
    repeat rw [String.toList_ofList]
    decide +kernel
  obtain ⟨u, hu, hpairs, hclosing, -⟩ := brackets_have_one_partner (t := ⟨.lparen, "(", 1⟩) htokens (by decide) rfl
  refine ⟨_, u, htokens, by decide, hu, hclosing, ?_⟩
  rw [← (hpairs ⟨.rparen, ")", 11⟩).1 (by decide)]

end RuleWeaver.Source
