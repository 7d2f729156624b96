import RuleWeaver.Proofs.Source.StatementEnds
import RuleWeaver.Proofs.Text.Basic

/-!
# Offsets in a text

Offsets at which a text can be cut.  Tokens begin and end at such offsets (`mem_place`, `isBoundary_of_mem_tokens`), those
that stand for statement ends included.
-/

namespace RuleWeaver.Text

variable {s t u v u' v' : Text} {n : Nat} {c : Char}

@[simp] lemma width_eq_zero_iff : s.width = 0 ↔ s = [] := by
  rcases s with _ | ⟨c, s⟩
  · simp
  · have := c.utf8Size_pos
    simp only [width_cons, reduceCtorEq, iff_false]
    omega

/-- Two ways to cut a text, the first one not behind the second. -/
lemma append_eq_append_of_le (h : u ++ v = u' ++ v') (hle : u.width ≤ u'.width) : ∃ w, u' = u ++ w ∧ v = w ++ v' := by
  rcases List.append_eq_append_iff.1 h with ⟨w, rfl, rfl⟩ | ⟨w, rfl, rfl⟩
  · exact ⟨w, rfl, rfl⟩
  · have hw : width w = 0 := by
      rw [width_append] at hle
      omega
    obtain rfl := width_eq_zero_iff.1 hw
    exact ⟨[], by simp, by simp⟩

lemma append_inj_of_width (h : u ++ v = u' ++ v') (hw : u.width = u'.width) : u = u' ∧ v = v' := by
  obtain ⟨w, rfl, rfl⟩ := append_eq_append_of_le h (Nat.le_of_eq hw)
  have : w = [] := by
    rw [← width_eq_zero_iff]
    rw [width_append] at hw
    omega
  simp [this]

lemma width_of_splitAt? (h : splitAt? n s = some (u, v)) : u.width = n := by
  induction s generalizing n u with
  | nil => cases n <;> simp_all [splitAt?]
  | cons c s ih =>
    cases n with
    | zero =>
      cases h
      rfl
    | succ n =>
      rw [splitAt?] at h
      split at h
      · obtain ⟨⟨u', v'⟩, h', e⟩ := Option.map_eq_some_iff.1 h
        cases e
        have := ih h'
        rw [width_cons]
        omega
      · cases h

/-- Whether a text can be cut at an offset. -/
def IsBoundary (s : Text) (n : Nat) : Prop := ∃ u v, s = u ++ v ∧ u.width = n

lemma isBoundary_zero : IsBoundary s 0 := ⟨[], s, rfl, rfl⟩

lemma isBoundary_width : IsBoundary s s.width := ⟨s, [], (List.append_nil s).symm, rfl⟩

lemma isBoundary_width_append : IsBoundary (u ++ v) u.width := ⟨u, v, rfl, rfl⟩

lemma IsBoundary.le_width (h : IsBoundary s n) : n ≤ s.width := by
  obtain ⟨u, v, rfl, rfl⟩ := h
  rw [width_append]
  omega

/-- Cutting behind a part that is cut off already. -/
lemma IsBoundary.cut (h : IsBoundary (u ++ v) n) (hle : u.width ≤ n) : ∃ w t, v = w ++ t ∧ n = u.width + w.width := by
  obtain ⟨a, b, e, rfl⟩ := h
  obtain ⟨w, rfl, rfl⟩ := append_eq_append_of_le e hle
  exact ⟨w, b, rfl, width_append u w⟩

/-- A slice from a boundary on begins what stands there. -/
lemma slice_prefix {m : Nat} : slice (u ++ v) u.width m <+: v := by
  rw [slice, dropBytes_width_append]
  cases h : splitAt? (m - u.width) v with
  | none => exact List.prefix_rfl
  | some p => exact ⟨p.2, append_of_splitAt? h⟩

end RuleWeaver.Text

namespace RuleWeaver.Source

open Text (IsBoundary)

variable {s : Text} {t u v : Token} {n : Nat} {ls : List Lexeme} {ts : List Token} {c c' : Cursor}

lemma mem_place : t ∈ place n ls ↔ ∃ xs ys, ls = xs ++ t.lexeme :: ys ∧ t.start = n + (joined xs).width := by
  induction ls generalizing n with
  | nil => simp
  | cons l ls ih =>
    rw [place_cons, List.mem_cons, ih]
    constructor
    · rintro (rfl | ⟨xs, ys, rfl, h⟩)
      · exact ⟨[], ls, rfl, rfl⟩
      · refine ⟨l :: xs, ys, rfl, ?_⟩
        rw [h, joined_cons, Text.width_append, Nat.add_assoc]
    · rintro ⟨_ | ⟨x, xs⟩, ys, e, h⟩
      · obtain ⟨rfl, rfl⟩ := List.cons.inj e
        exact .inl (by cases t; simp_all [Token.lexeme])
      · obtain ⟨rfl, rfl⟩ := List.cons.inj e
        refine .inr ⟨xs, ys, rfl, ?_⟩
        rw [h, joined_cons, Text.width_append, Nat.add_assoc]

lemma mem_tokens : t ∈ tokens s ↔ ∃ xs ys, lex s = xs ++ t.lexeme :: ys ∧ t.start = (joined xs).width := by
  rw [tokens, mem_place]
  simp

/-- The text of a token stands at its offset. -/
lemma text_at_of_mem_tokens (h : t ∈ tokens s) : ∃ u v, s = u ++ (t.text ++ v) ∧ u.width = t.start := by
  obtain ⟨xs, ys, e, hstart⟩ := mem_tokens.1 h
  refine ⟨joined xs, joined ys, ?_, hstart.symm⟩
  rw [← joined_lex (s := s), e]
  simp

/-- A token stands behind the text of the tokens in front of it. -/
lemma start_of_tokens_eq {L₁ L₂ : List Token} (h : tokens s = L₁ ++ u :: L₂) :
    u.start = (joined (L₁.map Token.lexeme)).width := by
  have hlex : lex s = L₁.map Token.lexeme ++ u.lexeme :: L₂.map Token.lexeme := by
    rw [← map_lexeme_tokens, h, List.map_append, List.map_cons]
  rw [tokens, hlex, place_append, place_cons, Nat.zero_add] at h
  obtain ⟨-, h⟩ := List.append_inj h (by rw [← List.length_map (f := Token.lexeme), map_lexeme_place, List.length_map])
  exact congrArg Token.start (List.cons.inj h).1.symm

/-- The text from a token on has the lexemes of the tokens from there on. -/
lemma lex_dropBytes_start {L₁ L₂ : List Token} (h : tokens s = L₁ ++ u :: L₂) :
    lex (s.dropBytes u.start) = u.lexeme :: L₂.map Token.lexeme := by
  have hlex : lex s = L₁.map Token.lexeme ++ u.lexeme :: L₂.map Token.lexeme := by
    rw [← map_lexeme_tokens, h, List.map_append, List.map_cons]
  have hs : s = joined (L₁.map Token.lexeme) ++ joined (u.lexeme :: L₂.map Token.lexeme) := by
    rw [← joined_append, ← hlex, joined_lex]
  rw [start_of_tokens_eq h]
  conv_lhs => rw [hs]
  rw [Text.dropBytes_width_append]
  exact lex_joined_right hlex

lemma stop_of_tokens_eq {L₁ L₂ : List Token} (h : tokens s = L₁ ++ u :: L₂) :
    u.stop = (joined ((L₁ ++ [u]).map Token.lexeme)).width := by
  rw [Token.stop, start_of_tokens_eq h]
  simp

lemma start_lt_stop (h : u ∈ tokens s) : u.start < u.stop := by
  have hpos : 0 < u.text.width := by
    rw [Nat.pos_iff_ne_zero, ne_eq, Text.width_eq_zero_iff]
    exact text_ne_nil (lexeme_mem_lex h)
  rw [Token.stop]
  omega

lemma stop_le_of_tokens_eq {L₁ L₂ : List Token} (h : tokens s = L₁ ++ u :: L₂) (hv : v ∈ L₁) : v.stop ≤ u.start := by
  obtain ⟨A, B, rfl⟩ := List.append_of_mem hv
  have hv' : tokens s = A ++ v :: (B ++ u :: L₂) := by simpa using h
  rw [start_of_tokens_eq h, stop_of_tokens_eq hv']
  simp only [List.map_append, List.map_cons, joined_append, joined_cons, Text.width_append, List.map_nil, joined_nil,
    Text.width_nil]
  omega

/-- Tokens that share a part of the text are the same. -/
lemma eq_of_overlap (hu : u ∈ tokens s) (hv : v ∈ tokens s) (h : u.start < v.stop) (h' : v.start < u.stop) : u = v := by
  obtain ⟨A, B, hA⟩ := List.append_of_mem hu
  rw [hA, List.mem_append, List.mem_cons] at hv
  rcases hv with hv | rfl | hv
  · have := stop_le_of_tokens_eq hA hv
    omega
  · rfl
  · obtain ⟨C, D, rfl⟩ := List.append_of_mem hv
    have hA' : tokens s = (A ++ u :: C) ++ v :: D := by rw [hA]; simp
    have := stop_le_of_tokens_eq hA' (v := u) (by simp)
    omega

lemma eq_of_stop_eq (hu : u ∈ tokens s) (hv : v ∈ tokens s) (h : u.stop = v.stop) : u = v :=
  eq_of_overlap hu hv (h ▸ start_lt_stop hu) (h ▸ start_lt_stop hv)

lemma eq_of_start_eq (hu : u ∈ tokens s) (hv : v ∈ tokens s) (h : u.start = v.start) : u = v :=
  eq_of_overlap hu hv (h ▸ start_lt_stop hv) (h ▸ start_lt_stop hu)

/-- Whether a text can be cut in front of a token and behind it. -/
def Token.IsIn (s : Text) (t : Token) : Prop := IsBoundary s t.start ∧ IsBoundary s t.stop

lemma Token.isIn_of_mem_tokens (h : t ∈ tokens s) : t.IsIn s := by
  obtain ⟨u, v, rfl, hu⟩ := text_at_of_mem_tokens h
  refine ⟨⟨u, _, rfl, hu⟩, u ++ t.text, v, by simp, ?_⟩
  rw [Text.width_append, hu, Token.stop]

lemma Token.isIn_impliedSemi (h : IsBoundary s n) : (Token.impliedSemi n).IsIn s := ⟨h, h⟩

lemma isIn_of_mem_endStatements {ending : Bool} (hts : ∀ t ∈ ts, t.IsIn s) (h : t ∈ endStatements s.width ending ts) :
    t.IsIn s := by
  induction ts generalizing ending with
  | nil =>
    unfold endStatements at h
    split at h
    · rw [List.mem_singleton.1 h]
      exact Token.isIn_impliedSemi Text.isBoundary_width
    · cases h
  | cons u ts ih =>
    have ih := fun ending => @ih ending fun t ht => hts t (List.mem_cons_of_mem _ ht)
    have hu := hts u List.mem_cons_self
    rw [endStatements] at h
    split at h
    · split at h
      · rcases List.mem_cons.1 h with rfl | h
        · exact Token.isIn_impliedSemi hu.1
        · exact ih _ h
      · exact ih _ h
    split at h
    · exact ih _ h
    · rcases List.mem_cons.1 h with rfl | h
      · exact hu
      · exact ih _ h

/-- A text can be cut around every token that a reader of declarations sees. -/
lemma isIn_of_mem_statementTokens (h : t ∈ statementTokens s) : t.IsIn s :=
  isIn_of_mem_endStatements (fun _ ht => Token.isIn_of_mem_tokens (List.mem_filter.1 ht).1) h

end RuleWeaver.Source
