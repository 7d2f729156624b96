import RuleWeaver.Proofs.Source.Coverage
import RuleWeaver.Proofs.Source.Outlines
import RuleWeaver.Registry.Initializer

/-!
# Bodies of functions

The lexemes of a function declaration: its comment block and its head, then the body between two braces.  The brackets
inside match (`parse_hasBody`), so the tokens between the braces can be had from their text alone
(`Decl.HasBody.tokensBetween?_eq`).
-/

namespace RuleWeaver.Source

variable {s : Text} {d : Decl} {f : Function} {b : Span} {n m : Nat} {c c' : Cursor} {inner rest ts : List Token} {close : Token}
  {ls front head inside behind : List Lexeme}

/-! ### Tokens at another place -/

/-- A token further on. -/
def Token.shift (n : Nat) (t : Token) : Token := { t with start := t.start + n }

lemma map_shift_place : (place m ls).map (Token.shift n) = place (m + n) ls := by
  induction ls generalizing m with
  | nil => rfl
  | cons l ls ih =>
    rw [place_cons, place_cons, List.map_cons, ih, Nat.add_right_comm]
    rfl

/-- A part of a text that is well formed by itself has its own tokens. -/
lemma tokensBetween?_of_text {u y v : Text} (hs : s = u ++ (y ++ v)) (hw : isWhole y) (hb : isBalanced [] (lex y)) :
    tokensBetween? s u.width (u.width + y.width) = some ((place u.width (lex y)).filter (·.kind ≠ .blank)) := by
  have htokens : tokenize y = .ok ((place 0 (lex y)).filter (·.kind ≠ .blank)) := tokenize_eq_ok_iff.2 ⟨hw, hb, rfl⟩
  rw [tokensBetween?, hs, Text.slice_width_append, htokens]
  rw [show place u.width (lex y) = (place 0 (lex y)).map (Token.shift u.width) by rw [map_shift_place, Nat.zero_add], List.filter_map]
  rfl

/-! ### Groups -/

/-- A group ends behind tokens whose brackets match. -/
lemma cutGroup?_of_isBalanced {stack : List Kind} (h : isBalanced stack (inner.map Token.lexeme)) (hc : close.kind.isClose) :
    cutGroup? stack.length (inner ++ close :: rest) = some (inner, close, rest) := by
  induction inner generalizing stack with
  | nil =>
    obtain rfl : stack = [] := by simpa [isBalanced] using h
    exact cutGroup?_close.2 ⟨hc, rfl⟩
  | cons t inner ih =>
    simp only [List.map_cons, isBalanced, Token.lexeme_kind] at h
    rw [List.cons_append, cutGroup?_inner, Kind.depthBehind]
    by_cases ho : t.kind.isOpen
    · simp only [ho, if_true] at h ⊢
      exact ⟨fun hclose => absurd ho (by simp [Kind.isOpen_of_isClose hclose]), ih h⟩
    by_cases hclose : t.kind.isClose
    · simp only [ho, hclose, if_true, if_false, Bool.false_eq_true] at h ⊢
      cases stack with
      | nil => cases h
      | cons k stack =>
        rw [Bool.and_eq_true] at h
        exact ⟨fun _ => Nat.succ_ne_zero _, ih h.2⟩
    · simp only [ho, hclose, if_false, Bool.false_eq_true] at h ⊢
      exact ⟨False.elim, ih h⟩

lemma isBalanced_of_statementPart {e : Bool} (h : isBalanced [] (statementPart e ls)) : isBalanced [] ls := by
  rw [← isBalanced_statementLexemes (e := e), statementLexemes, isBalanced_append h]
  split <;> rfl

/-! ### Bodies -/

/-- The lexemes around and in the body of a function.  `front` stands in front of the comment block, `head` in front of
the body, `inside` between its braces. -/
structure Decl.HasBody (s : Text) (d : Decl) (b : Span) (front head inside behind : List Lexeme) : Prop where
  lex_eq : lex s = front ++ (head ++ ⟨.lbrace, ['{']⟩ :: (inside ++ ⟨.rbrace, ['}']⟩ :: behind))
  isWhole : isWhole s
  isBalanced : isBalanced [] inside
  commentStart : d.commentStart = (joined front).width
  start : b.start = (joined (front ++ head)).width
  stop : b.stop = b.start + 1 + (joined inside).width + 1
  span_stop : d.span.stop = b.stop

namespace Decl.HasBody

lemma isLexed (h : d.HasBody s b front head inside behind) : IsLexed inside := by
  have hall := isLexed_of_lex h.lex_eq h.isWhole
  exact (IsLexed.right (A := [_]) hall.right.right).left

lemma text_eq (h : d.HasBody s b front head inside behind) :
    s = joined (front ++ head ++ [⟨.lbrace, ['{']⟩]) ++ (joined inside ++ '}' :: joined behind) := by
  rw [← joined_lex (s := s), h.lex_eq]
  simp

lemma width_front (h : d.HasBody s b front head inside behind) :
    (joined (front ++ head ++ [⟨.lbrace, ['{']⟩])).width = b.start + 1 := by
  rw [joined_append, Text.width_append, ← h.start]
  rfl

lemma isBoundary (h : d.HasBody s b front head inside behind) :
    Text.IsBoundary s d.spanWithComment.start ∧ Text.IsBoundary s d.spanWithComment.stop := by
  constructor
  · have hs : s = joined front ++ joined (head ++ ⟨.lbrace, ['{']⟩ :: (inside ++ ⟨.rbrace, ['}']⟩ :: behind)) := by
      rw [← joined_append, ← h.lex_eq, joined_lex]
    exact ⟨_, _, hs, h.commentStart.symm⟩
  · have hs : s = (joined (front ++ head ++ [⟨.lbrace, ['{']⟩]) ++ joined inside ++ ['}']) ++ joined behind := by
      rw [List.append_assoc, List.append_assoc]
      exact h.text_eq
    refine ⟨_, _, hs, ?_⟩
    rw [Text.width_append, Text.width_append, h.width_front]
    exact (h.stop.symm.trans h.span_stop.symm)

/-- **The tokens between the braces.** -/
theorem tokensBetween?_eq (h : d.HasBody s b front head inside behind) :
    tokensBetween? s (b.start + 1) (b.stop - 1) = some ((place (b.start + 1) inside).filter (·.kind ≠ .blank)) := by
  have htokens := tokensBetween?_of_text h.text_eq h.isLexed.isWhole (by rw [h.isLexed.1]; exact h.isBalanced)
  rwa [h.width_front, h.isLexed.1, ← Nat.add_sub_cancel (n := b.start + 1 + (joined inside).width) (m := 1), ← h.stop] at htokens

end Decl.HasBody

/-- An opening bracket among statement tokens begins a group, which stands in the text, with brackets inside that match. -/
lemma exists_group {o : Token} {vs : List Token} (hb : isBalanced [] (lex s)) (h : statementTokens s = vs ++ o :: ts)
    (ho : o.kind.isOpen) : ∃ inner close rest L M N, cutGroup? 0 ts = some (inner, close, rest) ∧
      tokens s = L ++ o :: (M ++ close :: N) ∧ isBalanced [] (M.map Token.lexeme) ∧ o.kind.closer? = some close.kind := by
  rw [← isBalanced_statementLexemes (e := false), ← map_lexeme_statementTokens, h, List.map_append] at hb
  obtain ⟨stack, hstack⟩ := exists_isBalanced_right hb
  have hopen : isBalanced ([] ++ o.kind :: stack) (ts.map Token.lexeme) := by simpa [isBalanced, ho] using hstack
  obtain ⟨inside, l, behind, hsplit, hcloser, hinner, -⟩ := exists_closed hopen
  obtain ⟨inner, ts, rfl, rfl, hts⟩ := List.map_eq_append_iff.1 hsplit
  obtain ⟨close, rest, rfl, rfl, rfl⟩ := List.map_eq_cons_iff.1 hts
  obtain ⟨-, hclose, -⟩ := isOpen_of_closer? hcloser
  -- both brackets stand in the text
  obtain ⟨L, L', hL, -, -, hrest⟩ := endStatements_eq_append h (by rintro hk; simp [hk, Kind.isOpen] at ho)
  obtain ⟨M, N, rfl, hcsig, hM, -⟩ := endStatements_eq_append hrest.symm
    (by rintro hk; rw [Token.lexeme_kind, hk] at hclose; cases hclose)
  rw [List.map_append, List.map_append, statementPart_append, List.map_singleton,
    statementPart_cons_of_isSignificant (l := close.lexeme) hcsig] at hM
  have hmatch : isBalanced [] (M.map Token.lexeme) := isBalanced_of_statementPart ((List.append_inj' hM rfl).1 ▸ hinner)
  exact ⟨inner, close, rest, L, M, N, cutGroup?_of_isBalanced hinner hclose, hL, hmatch, hcloser⟩

/-- The text of a bracket tells its class. -/
lemma lexeme_of_bracket {t : Token} {k : Kind} {x : Char} (ht : t ∈ tokens s) (hk : t.kind = k) (hx : k.bracket? = some x) :
    t.lexeme = ⟨k, [x]⟩ := by
  subst hk
  exact congrArg (Lexeme.mk t.kind) (text_of_bracket (l := t.lexeme) (lexeme_mem_lex ht) hx)

/-- **Every body stands between braces, and the brackets inside match.** -/
theorem parse_hasBody {tree : Tree} (h : parse s = .ok tree) (hd : d ∈ tree.decls) (hf : d.kind = .function f)
    (hb : f.body = some b) : ∃ front head inside behind, d.HasBody s b front head inside behind := by
  obtain ⟨hw, hbalanced, -⟩ := parse_eq_ok h
  obtain ⟨y, c, c', hpass, hdecl, rfl⟩ := parse_decl h hd
  obtain ⟨a, hread, -, hspan⟩ := Cursor.decl_eq_ok hdecl
  obtain ⟨u, us, hreads, hkeyword⟩ := Cursor.declKind_reads hread
  rw [show y.kind = .function f from hf] at hread
  obtain ⟨ts, g, hg, hbody⟩ := Cursor.function_eq_ok (function_of_declKind hread)
  rw [hb] at hbody
  obtain ⟨o, inner, close, hgroup, ho, hcut, rfl⟩ := functionBody_group hbody
  have hadvance : c.advance.ahead = us ++ a.ahead := by rw [Cursor.advance, hreads.ahead]; rfl
  -- the group ends the declaration, behind the keyword
  obtain ⟨ws, hws⟩ : ∃ ws, us = ws ++ o :: (inner ++ [close]) := by
    obtain ⟨ws, hws⟩ := hgroup.trans hg.suffix
    refine ⟨ws, (List.append_left_inj a.ahead).1 ?_⟩
    rw [← hadvance, ← hws]
    simp
  obtain ⟨vs, hvs⟩ := hpass.suffix
  have hstatements : statementTokens s = (vs ++ u :: ws) ++ o :: (inner ++ close :: a.ahead) := by
    rw [show statementTokens s = vs ++ c.ahead from hvs.symm, hreads.ahead, hws]
    simp
  obtain ⟨_, _, _, L, M, N, hcut', htokens, hM, hcloser⟩ := exists_group hbalanced hstatements (by rw [ho]; rfl)
  cases hcut.symm.trans hcut'
  rw [ho] at hcloser
  have hlbrace : o.lexeme = ⟨.lbrace, ['{']⟩ := lexeme_of_bracket (by rw [htokens]; simp) ho rfl
  have hrbrace : close.lexeme = ⟨.rbrace, ['}']⟩ :=
    lexeme_of_bracket (by rw [htokens]; simp) (Option.some.inj hcloser).symm rfl
  have hostart := start_of_tokens_eq htokens
  -- the comment block begins in front of the brace
  obtain ⟨before, body, last, after, hat⟩ := exists_standsAt h hd
  obtain ⟨P, C, rfl, -, hcomment⟩ := hat.exists_comments
  have hle : (joined (P.map Token.lexeme)).width < o.start := by
    have hbefore : y.span.start = (joined ((P ++ C).map Token.lexeme)).width := congrArg Span.start hat.span
    have hkey : y.span.start = u.start := by
      rw [hspan, Cursor.start, hreads.ahead]
      rfl
    have hu : u ∈ tokens s := by
      refine mem_tokens_of_mem_statementTokens (by rw [hstatements]; simp) fun hk => ?_
      rw [hk] at hkeyword
      revert hkeyword
      decide
    have hlt := start_lt_stop hu
    have hstop : u.stop ≤ o.start := by
      have hordered := areOrdered_statementTokens (s := s)
      rw [hstatements, AreOrdered, List.pairwise_append] at hordered
      exact hordered.2.2 u (by simp) o (by simp) (by rintro hk; simp [hk] at hkeyword) (by rw [ho]; decide)
    rw [List.map_append, joined_append, Text.width_append] at hbefore
    omega
  obtain ⟨H, rfl⟩ : ∃ H, L = P ++ H := by
    have hsplit : P ++ (C ++ (body ++ last :: after)) = L ++ o :: (M ++ close :: N) := by
      rw [← htokens, hat.tokens, List.append_assoc]
    rcases List.append_eq_append_iff.1 hsplit with ⟨w, hw, -⟩ | ⟨w, hw, -⟩
    · exact ⟨w, hw⟩
    · rw [hw, List.map_append, joined_append, Text.width_append] at hle
      omega
  refine ⟨P.map Token.lexeme, H.map Token.lexeme, M.map Token.lexeme, N.map Token.lexeme, ?_, hw, hM, hcomment, ?_, ?_, ?_⟩
  · rw [← map_lexeme_tokens, htokens, ← hlbrace, ← hrbrace]
    simp
  · rw [← List.map_append]
    exact hostart
  · have hsplit : tokens s = (P ++ H ++ o :: M) ++ close :: N := by
      rw [htokens]
      simp
    have hstop := stop_of_tokens_eq hsplit
    have hone : o.text.width = 1 ∧ close.text.width = 1 := by
      rw [← Token.lexeme_text o, ← Token.lexeme_text close, hlbrace, hrbrace]
      exact ⟨rfl, rfl⟩
    simp only [List.map_append, List.map_cons, List.map_nil, joined_append, joined_cons, joined_nil, Text.width_append,
      Token.lexeme_text, Text.width_nil, hone] at hstop hostart
    show close.stop = o.start + 1 + _ + 1
    omega
  · show y.span.stop = close.stop
    rw [hspan, hreads.behind, hws, show u :: (ws ++ o :: (inner ++ [close])) = (u :: ws ++ o :: inner) ++ [close] by simp,
      List.getLast?_concat]
    rfl

end RuleWeaver.Source
