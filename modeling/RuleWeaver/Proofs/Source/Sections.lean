import Mathlib.Data.List.Induction
import RuleWeaver.Proofs.Source.Locality

/-!
# Sections of a file

A section is text that is read as the same declarations wherever it stands.  Sections can be put together
(`IsSection.append`), and a declaration of a file is a section with the comment block above it, if its last token can end
a statement (`isSection_of_mem_decls`).
-/

namespace RuleWeaver.Source

variable {s t : Text} {c c' d : Cursor} {ts us rest : List Token} {u v semi : Token} {xs ys : List Lexeme} {stack stack' : List Kind}
  {ks ls : List DeclKind} {tree : Tree} {x : Decl}

/-! ### Brackets -/

lemma closer?_eq_some {k m : Kind} (h : k.closer? = some m) :
    (k = .lbrace ∧ m = .rbrace) ∨ (k = .lparen ∧ m = .rparen) ∨ (k = .lbracket ∧ m = .rbracket) := by
  unfold Kind.closer? at h
  split at h <;> cases h <;> simp

lemma isOpen_of_closer? {k m : Kind} (h : k.closer? = some m) : k.isOpen ∧ m.isClose ∧ m.isOpen = false := by
  cases k <;> cases h <;> decide

lemma closer?_injective {k k' m : Kind} (h : k.closer? = some m) (h' : k'.closer? = some m) : k = k' := by
  rcases closer?_eq_some h with ⟨rfl, rfl⟩ | ⟨rfl, rfl⟩ | ⟨rfl, rfl⟩ <;>
    rcases closer?_eq_some h' with ⟨rfl, hm⟩ | ⟨rfl, hm⟩ | ⟨rfl, hm⟩ <;> first | rfl | cases hm

lemma isBalanced_unique (h : isBalanced stack xs) (h' : isBalanced stack' xs) : stack = stack' := by
  induction xs generalizing stack stack' with
  | nil => rw [List.isEmpty_iff.1 h, List.isEmpty_iff.1 h']
  | cons l xs ih =>
    simp only [isBalanced] at h h'
    split at h
    · next ho =>
      rw [if_pos ho] at h'
      exact (List.cons.inj (ih h h')).2
    next ho =>
    rw [if_neg ho] at h'
    split at h
    · next hc =>
      rw [if_pos hc] at h'
      rcases stack with _ | ⟨k, stack⟩
      · cases h
      rcases stack' with _ | ⟨k', stack'⟩
      · cases h'
      simp only [Bool.and_eq_true, decide_eq_true_eq] at h h'
      rw [closer?_injective h.1 h'.1, ih h.2 h'.2]
    · next hc =>
      rw [if_neg hc] at h'
      exact ih h h'

/-- What stands in front of brackets that match by themselves matches too. -/
lemma isBalanced_left (h : isBalanced stack (xs ++ ys)) (h' : isBalanced [] ys) : isBalanced stack xs := by
  induction xs generalizing stack with
  | nil =>
    rw [isBalanced_unique h h']
    rfl
  | cons l xs ih =>
    simp only [List.cons_append, isBalanced] at h ⊢
    split at h
    · next ho =>
      rw [if_pos ho]
      exact ih h
    next ho =>
    rw [if_neg ho]
    split at h
    · next hc =>
      rw [if_pos hc]
      rcases stack with _ | ⟨k, stack⟩
      · cases h
      · simp only [Bool.and_eq_true] at h ⊢
        exact ⟨h.1, ih h.2⟩
    · next hc =>
      rw [if_neg hc]
      exact ih h

/-! ### Sections -/

/-- Whether a text is read as declarations of the given shapes, wherever it stands between declarations. -/
structure IsSection (s : Text) (shapes : List DeclKind) : Prop where
  closed : IsClosed s
  whole : isWhole s
  balanced : isBalanced [] (lex s)
  ended : endingBehind false (lex s) = false
  decls : ∀ (c : Cursor) (ts rest : List Token), c.ahead = ts ++ rest → ts.map Token.lexeme = statementPart false (lex s) →
    ∃ (ds : List Decl) (c' : Cursor), c'.ahead = rest ∧ c.decls = c'.decls.map (ds ++ ·) ∧ ds.map (·.kind.shape) = shapes

lemma isWhole_append (hs : IsClosed s) : isWhole (s ++ t) ↔ isWhole s ∧ isWhole t := by
  rw [isWhole, hs t, List.all_append, Bool.and_eq_true]
  rfl

namespace IsSection

lemma nil : IsSection [] [] where
  closed y := by simp
  whole := by simp [isWhole]
  balanced := by simp [isBalanced]
  ended := by simp [endingBehind]
  decls c ts rest hc hts := by
    obtain rfl : ts = [] := by simpa [statementPart] using hts
    refine ⟨[], c, hc, ?_, rfl⟩
    cases c.decls <;> rfl

lemma append (h : IsSection s ks) (h' : IsSection t ls) : IsSection (s ++ t) (ks ++ ls) where
  closed y := by rw [List.append_assoc, h.closed, h'.closed, h.closed, List.append_assoc]
  whole := (isWhole_append h.closed).2 ⟨h.whole, h'.whole⟩
  balanced := by rw [h.closed, isBalanced_append h.balanced, h'.balanced]
  ended := by rw [h.closed, endingBehind_append, h.ended, h'.ended]
  decls c ts rest hc hts := by
    rw [h.closed, statementPart_append, h.ended] at hts
    obtain ⟨ts, us, rfl, hts, hus⟩ := List.map_eq_append_iff.1 hts
    obtain ⟨ds, d, hd, hds, hshapes⟩ := h.decls c ts (us ++ rest) (by rw [hc, List.append_assoc]) hts
    obtain ⟨es, e, he, hes, hshapes'⟩ := h'.decls d us rest hd hus
    refine ⟨ds ++ es, e, he, ?_, by rw [List.map_append, hshapes, hshapes']⟩
    rw [hds, hes]
    cases e.decls <;> simp [Except.map]

lemma flatMap {α : Type} {f : α → Text} {g : α → DeclKind} {as : List α} (h : ∀ a ∈ as, IsSection (f a) [g a]) :
    IsSection (as.flatMap f) (as.map g) := by
  induction as with
  | nil => exact nil
  | cons a as ih =>
    rw [List.flatMap_cons, List.map_cons, ← List.singleton_append]
    exact (h a List.mem_cons_self).append (ih fun b hb => h b (List.mem_cons_of_mem _ hb))

lemma newline : IsSection ['\n'] [] where
  closed y := by
    rw [List.singleton_append, lex_newline, lex_newline]
    simp
  whole := by
    rw [isWhole, lex_newline]
    simp [Lexeme.isSound]
  balanced := by
    rw [lex_newline]
    simp [isBalanced, Kind.isOpen, Kind.isClose]
  ended := by
    rw [lex_newline]
    simp [endingBehind, Lexeme.breaksLine]
  decls c ts rest hc hts := by
    obtain rfl : ts = [] := by simpa [statementPart, Lexeme.breaksLine] using hts
    refine ⟨[], c, hc, ?_, rfl⟩
    cases c.decls <;> rfl

/-- Behind a whole text, a section begins on a new line, if it is not empty. -/
lemma lex_behind (h : IsSection t ks) (hw : isWhole s) (ht : t = [] ∨ ∃ u, t = '\n' :: u) : lex (s ++ t) = lex s ++ lex t ∧
    statementLexemes false (lex (s ++ t)) = statementLexemes false (lex s) ++ statementPart false (lex t) := by
  rcases ht with rfl | ⟨u, rfl⟩
  · simp [statementPart]
  · have hlex : lex (s ++ '\n' :: u) = lex s ++ lex ('\n' :: u) := by rw [lex_append_newline hw, lex_newline]
    have hended := h.ended
    refine ⟨hlex, ?_⟩
    rw [hlex, statementLexemes_append]
    rw [lex_newline] at hended ⊢
    have hbreak : (⟨.newline, ['\n']⟩ : Lexeme).breaksLine = true := rfl
    simp only [endingBehind, hbreak, if_true] at hended
    cases hend : endingBehind false (lex s) <;>
      simp [statementLexemes, statementPart, endingBehind, hbreak, hended, hend]

end IsSection

/-! ### Single declarations -/

lemma decls_eq (c : Cursor) : c.decls = if c.pastSemis.kind? = none then .ok [] else
    match c.pastSemis.decl with
    | .error e => .error e
    | .ok (x, c') => c'.decls.map (x :: ·) := by
  rw [Cursor.decls]
  split
  · rfl
  · split <;> next e => simp only [e]

lemma decls_of_decl (hk : c.pastSemis.kind? ≠ none) (h : c.pastSemis.decl = .ok (x, c')) :
    c.decls = c'.decls.map (x :: ·) := by
  rw [decls_eq, if_neg hk, h]

/-- A declaration is read in front of whatever follows its end. -/
lemma exists_declKind {kind : DeclKind} {c₂ : Cursor} {rest₂ : List Token} (h : c.declKind = .ok (kind, d))
    (hc : c.ahead = ts ++ semi :: rest) (hsemi : semi.kind = .semi) (hd : d.ahead = semi :: rest) (hc₂ : c₂.ahead = us ++ v :: rest₂)
    (hus : us.map Token.lexeme = ts.map Token.lexeme) (hv : v.kind = .semi) :
    ∃ kind₂ d₂, c₂.declKind = .ok (kind₂, d₂) ∧ d₂.ahead = v :: rest₂ ∧ kind₂.shape = kind.shape := by
  have hagree : Agree Eq (semi :: rest) (v :: rest₂) c c₂ := .of_sameCode (.of_lexemes hus.symm) hc hc₂
    (.inr ⟨semi, v, rest, rest₂, rfl, rfl, hsemi, hv⟩)
  obtain ⟨kind₂, d₂, hread, hlike, n, f, ws, ws₂, hd', hd₂, halike, -⟩ :=
    declKind_local hagree h (by simp [Cursor.size, hd])
  -- nothing but the statement end is left
  obtain rfl : ws = [] := by
    have := congrArg List.length (hd.symm.trans hd')
    simp only [List.length_cons, List.length_append] at this
    exact List.length_eq_zero_iff.1 (by omega)
  cases halike
  exact ⟨kind₂, d₂, hread, hd₂, hlike.shape_eq.symm⟩

lemma decls_of_declKind {kind : DeclKind} {c₂ : Cursor} {rest₂ : List Token} (h : c.declKind = .ok (kind, d))
    (hc : c.ahead = ts ++ semi :: rest) (hsemi : semi.kind = .semi) (hd : d.ahead = semi :: rest) (hc₂ : c₂.ahead = us ++ v :: rest₂)
    (hus : us.map Token.lexeme = ts.map Token.lexeme) (hv : v.kind = .semi) :
    ∃ (x : Decl) (c₂' : Cursor), c₂'.ahead = rest₂ ∧ c₂.decls = c₂'.decls.map (x :: ·) ∧ x.kind.shape = kind.shape := by
  obtain ⟨kind₂, d₂, hread, hd₂, hshape⟩ := exists_declKind h hc hsemi hd hc₂ hus hv
  obtain ⟨t₀, ts₀, hreads, hkeyword⟩ := Cursor.declKind_reads hread
  have hpast : c₂.pastSemis = c₂ := by
    refine pastSemis_eq_self hreads.ahead ?_
    intro hk
    rw [hk] at hkeyword
    revert hkeyword
    decide
  have hkind : c₂.kind? ≠ none := by
    rw [Cursor.kind?, hreads.ahead]
    simp
  have hdecl : c₂.decl = .ok (⟨kind₂, ⟨c₂.start, d₂.behind⟩, c₂.start⟩, ⟨v.stop, rest₂⟩) :=
    Cursor.decl_eq_ok_iff.2 ⟨kind₂, d₂, hread, Cursor.endDeclaration_of_semi hd₂ hv, rfl⟩
  exact ⟨⟨kind₂, ⟨c₂.start, d₂.behind⟩, c₂.start⟩, ⟨v.stop, rest₂⟩, rfl,
    decls_of_decl (by rw [hpast]; exact hkind) (by rw [hpast]; exact hdecl), hshape⟩

/-- Text whose tokens are read as a declaration somewhere is a section. -/
lemma isSection_of_declKind {kind : DeclKind} {semis : List Lexeme} (hw : isWhole s)
    (hlast : (lex s).getLast? = some ⟨.newline, ['\n']⟩) (hb : isBalanced [] (lex s))
    (hpart : statementPart false (lex s) = ts.map Token.lexeme ++ semis) (hsemis : semis.map Lexeme.kind = [.semi])
    (hc : c.ahead = ts ++ semi :: rest) (hsemi : semi.kind = .semi) (h : c.declKind = .ok (kind, d))
    (hd : d.ahead = semi :: rest) : IsSection s [kind.shape] where
  closed := isClosed_of_newline hw hlast
  whole := hw
  balanced := hb
  ended := by
    obtain ⟨xs, hxs⟩ := List.getLast?_eq_some_iff.1 hlast
    rw [hxs, endingBehind_append]
    simp [endingBehind, Lexeme.breaksLine]
  decls c₂ ts₂ rest₂ hc₂ hts₂ := by
    rw [hpart] at hts₂
    obtain ⟨us, vs, rfl, hus, hvs⟩ := List.map_eq_append_iff.1 hts₂
    obtain ⟨v, rfl, hv⟩ : ∃ v, vs = [v] ∧ v.kind = .semi := by
      have := congrArg (List.map Lexeme.kind) hvs
      rw [hsemis, List.map_map, List.map_eq_singleton_iff] at this
      exact this
    have hahead : c₂.ahead = us ++ v :: rest₂ := by rw [hc₂, List.append_assoc, List.singleton_append]
    obtain ⟨x, c₂', hrest, hdecls, hshape⟩ := decls_of_declKind h hc hsemi hd hahead hus hv
    exact ⟨[x], c₂', hrest, hdecls, by rw [List.map_singleton, hshape]⟩

/-- Whether a text by itself is one declaration of the given shape, which the line break at its end ends. -/
def isDeclText (s : Text) (shape : DeclKind) : Bool :=
  isWhole s && isBalanced [] (lex s) && (lex s).getLast? = some ⟨.newline, ['\n']⟩ &&
    match (Cursor.mk 0 (statementTokens s)).declKind with
    | .ok (kind, d) => kind.shape = shape && d.ahead.map Token.lexeme = [.impliedSemi]
    | .error _ => false

lemma isSection_of_isDeclText {shape : DeclKind} (h : isDeclText s shape) : IsSection s [shape] := by
  simp only [isDeclText, Bool.and_eq_true, decide_eq_true_eq] at h
  obtain ⟨⟨⟨hw, hb⟩, hlast⟩, h⟩ := h
  split at h
  · next kind d hread =>
    rw [Bool.and_eq_true, decide_eq_true_eq, decide_eq_true_eq] at h
    obtain ⟨rfl, hd⟩ := h
    obtain ⟨t, ts, hreads, -⟩ := Cursor.declKind_reads hread
    obtain ⟨semi, hd, hsemi⟩ := List.map_eq_singleton_iff.1 hd
    have hlexemes := map_lexeme_statementTokens (s := s)
    obtain ⟨xs, hxs⟩ := List.getLast?_eq_some_iff.1 hlast
    have hend : endingBehind false (lex s) = false := by
      rw [hxs, endingBehind_append]
      simp [endingBehind, Lexeme.breaksLine]
    rw [statementLexemes, hend, if_neg Bool.false_ne_true, List.append_nil,
      show statementTokens s = t :: ts ++ d.ahead from hreads.ahead, hd, List.map_append] at hlexemes
    exact isSection_of_declKind hw hlast hb hlexemes.symm (by rw [List.map_singleton, hsemi]; rfl)
      (by rw [← hd]; exact hreads.ahead) (congrArg Lexeme.kind hsemi) hread hd
  · cases h

/-! ### Declarations of a file -/

variable {size : Nat} {e : Bool} {L : List Token} {last : Token}

lemma eq_append_of_impliedSemi {n : Nat} (h : .impliedSemi n :: us = ts ++ last :: rest) (hlast : last.kind ≠ .semi) :
    ∃ vs, ts = .impliedSemi n :: vs ∧ us = vs ++ last :: rest := by
  rcases ts with _ | ⟨t, ts⟩
  · exact absurd (congrArg Token.kind (List.cons.inj h).1).symm hlast
  · obtain ⟨rfl, h'⟩ := List.cons.inj h
    exact ⟨ts, rfl, h'⟩

/-- Where a token stands among the tokens of a text that it is read from. -/
lemma endStatements_eq_append (h : endStatements size e (L.filter (·.kind ≠ .blank)) = ts ++ last :: rest)
    (hlast : last.kind ≠ .semi) :
    ∃ L₁ L₂, L = L₁ ++ last :: L₂ ∧ last.kind.isSignificant ∧
      (ts ++ [last]).map Token.lexeme = statementPart e ((L₁ ++ [last]).map Token.lexeme) ∧
      rest = endStatements size last.kind.endsStatement (L₂.filter (·.kind ≠ .blank)) := by
  induction L generalizing e ts with
  | nil =>
    rw [List.filter_nil, endStatements] at h
    split at h
    · obtain ⟨vs, -, h⟩ := eq_append_of_impliedSemi h hlast
      simp at h
    · simp at h
  | cons t L ih =>
    by_cases hb : t.kind = .blank
    · rw [List.filter_cons_of_neg (by simpa using hb)] at h
      obtain ⟨L₁, L₂, rfl, hsig, hpart, hrest⟩ := ih h
      refine ⟨t :: L₁, L₂, rfl, hsig, ?_, hrest⟩
      rw [hpart, List.cons_append, List.map_cons, statementPart, if_neg (by simp [Lexeme.breaksLine, hb]),
        if_pos (.inl hb)]
    rw [List.filter_cons_of_pos (by simpa using hb), endStatements] at h
    split at h
    · next hbreak =>
      have hbreak : t.lexeme.breaksLine := hbreak
      split at h
      · next he =>
        obtain ⟨ts, rfl, h'⟩ := eq_append_of_impliedSemi h hlast
        obtain ⟨L₁, L₂, rfl, hsig, hpart, hrest⟩ := ih h'
        refine ⟨t :: L₁, L₂, rfl, hsig, ?_, hrest⟩
        rw [List.cons_append, List.map_cons, hpart, List.cons_append, List.map_cons, statementPart, if_pos hbreak, if_pos he]
        rfl
      · next he =>
        obtain ⟨L₁, L₂, rfl, hsig, hpart, hrest⟩ := ih h
        refine ⟨t :: L₁, L₂, rfl, hsig, ?_, hrest⟩
        rw [hpart, List.cons_append, List.map_cons, statementPart, if_pos hbreak, if_neg he]
    next hbreak =>
    have hbreak : ¬ t.lexeme.breaksLine := hbreak
    split at h
    · next hcomment =>
      obtain ⟨L₁, L₂, rfl, hsig, hpart, hrest⟩ := ih h
      refine ⟨t :: L₁, L₂, rfl, hsig, ?_, hrest⟩
      rw [hpart, List.cons_append, List.map_cons, statementPart, if_neg hbreak, if_pos (.inr hcomment)]
    next hcomment =>
    have hsig : t.kind.isSignificant := by
      revert hbreak hcomment hb
      unfold Lexeme.breaksLine Token.lexeme
      cases t.kind <;> simp [Kind.isSignificant, Kind.isComment]
    rcases ts with _ | ⟨v, ts⟩
    · obtain ⟨rfl, rfl⟩ := List.cons.inj h
      refine ⟨[], L, rfl, hsig, ?_, rfl⟩
      exact (statementPart_cons_of_isSignificant hsig : statementPart e [t.lexeme] = _).symm
    · obtain ⟨rfl, h'⟩ := List.cons.inj h
      obtain ⟨L₁, L₂, rfl, hsig', hpart, hrest⟩ := ih h'
      refine ⟨t :: L₁, L₂, rfl, hsig', ?_, hrest⟩
      rw [List.cons_append, List.map_cons, hpart, List.cons_append, List.map_cons,
        statementPart_cons_of_isSignificant (l := t.lexeme) hsig, Token.lexeme_kind]

/-- Where a statement token stands that is known to be the first one behind some lexemes. -/
lemma start_of_statementTokens {P Q : List Lexeme} {l : Lexeme} (h : statementTokens s = ts ++ last :: rest) (hlast : last.kind ≠ .semi)
    (hs : lex s = P ++ l :: Q) (hl : l.kind.isSignificant) (hts : ts.length = (statementPart false P).length) :
    last.start = (joined P).width ∧ last.lexeme = l := by
  obtain ⟨L₁, L₂, htokens, hsig, hpart, -⟩ := endStatements_eq_append (show endStatements s.width false _ = _ from h) hlast
  have hlex : L₁.map Token.lexeme ++ last.lexeme :: L₂.map Token.lexeme = P ++ l :: Q := by
    rw [← hs, ← map_lexeme_tokens, htokens]
    simp
  have hlength := congrArg List.length hpart
  rw [List.length_map, List.length_append, List.map_append, statementPart_append, List.length_append, hts, List.map_singleton,
    statementPart_cons_of_isSignificant (l := last.lexeme) hsig] at hlength
  have hone : ∀ (xs ys : List Lexeme) (m : Lexeme), m.kind.isSignificant →
      (statementPart false xs).length + 1 ≤ (statementPart false (xs ++ m :: ys)).length := by
    intro xs ys m hm
    rw [statementPart_append, statementPart_cons_of_isSignificant hm, List.length_append, List.length_cons]
    omega
  -- neither list is longer than the other
  obtain rfl : L₁.map Token.lexeme = P := by
    rcases List.append_eq_append_iff.1 hlex with ⟨a, rfl, ha⟩ | ⟨a, ha', ha⟩
    · rcases a with _ | ⟨m, a⟩
      · simp
      · obtain ⟨rfl, -⟩ := List.cons.inj ha
        have := hone (L₁.map Token.lexeme) a last.lexeme hsig
        simp only [List.length_cons, List.length_nil, statementPart] at hlength
        omega
    · rcases a with _ | ⟨m, a⟩
      · simpa using ha'
      · obtain ⟨rfl, -⟩ := List.cons.inj ha
        have := hone P a l hl
        rw [← ha'] at this
        simp only [List.length_cons, List.length_nil, statementPart] at hlength
        omega
  refine ⟨start_of_tokens_eq htokens, ?_⟩
  exact (List.cons.inj (List.append_cancel_left hlex)).1

lemma endStatements_ne_nil : endStatements size true ts ≠ [] := by
  induction ts with
  | nil => simp [endStatements]
  | cons t ts ih =>
    rw [endStatements]
    split
    · simp
    split
    · exact ih
    · simp

/-- A comment block begins with a comment behind which no code stands, if there is one. -/
lemma commentStart_cases (start breaks : Nat) (L : List Token) :
    commentStart start breaks (L.filter (·.kind ≠ .blank)).reverse = start ∨
      ∃ L₁ t L₂, L = L₁ ++ t :: L₂ ∧ (∀ v ∈ t :: L₂, v.kind.isSignificant = false) ∧
        commentStart start breaks (L.filter (·.kind ≠ .blank)).reverse = t.start := by
  induction L using List.reverseRecOn generalizing start breaks with
  | nil => exact .inl rfl
  | append_singleton L t ih =>
    have extend : ∀ start' breaks' : Nat, t.kind.isSignificant = false → (start' = start ∨ start' = t.start) →
        commentStart start breaks ((L ++ [t]).filter (·.kind ≠ .blank)).reverse =
          commentStart start' breaks' (L.filter (·.kind ≠ .blank)).reverse →
        commentStart start breaks ((L ++ [t]).filter (·.kind ≠ .blank)).reverse = start ∨
          ∃ L₁ u L₂, L ++ [t] = L₁ ++ u :: L₂ ∧ (∀ v ∈ u :: L₂, v.kind.isSignificant = false) ∧
            commentStart start breaks ((L ++ [t]).filter (·.kind ≠ .blank)).reverse = u.start := by
      intro start' breaks' ht hstart h
      rw [h]
      rcases ih start' breaks' with e | ⟨L₁, u, L₂, rfl, hall, e⟩
      · rw [e]
        rcases hstart with rfl | rfl
        · exact .inl rfl
        · exact .inr ⟨L, t, [], rfl, by simpa using ht, rfl⟩
      · refine .inr ⟨L₁, u, L₂ ++ [t], by simp, fun v hv => ?_, e⟩
        rw [← List.cons_append, List.mem_append, List.mem_singleton] at hv
        rcases hv with hv | rfl
        · exact hall v hv
        · exact ht
    by_cases hb : t.kind = .blank
    · refine extend start breaks (by rw [hb]; rfl) (.inl rfl) ?_
      rw [List.filter_append, List.filter_cons_of_neg (by simpa using hb), List.filter_nil, List.append_nil]
    have hfilter : ((L ++ [t]).filter (·.kind ≠ .blank)).reverse = t :: (L.filter (·.kind ≠ .blank)).reverse := by
      rw [List.filter_append, List.filter_cons_of_pos (by simpa using hb), List.filter_nil, List.reverse_append]
      rfl
    by_cases hn : t.kind = .newline
    · by_cases hbreaks : 1 ≤ breaks
      · refine .inl ?_
        rw [hfilter, commentStart, if_pos hn, if_pos hbreaks]
      · refine extend start (breaks + 1) (by rw [hn]; rfl) (.inl rfl) ?_
        rw [hfilter, commentStart, if_pos hn, if_neg hbreaks]
    by_cases hc : t.kind.isComment
    · by_cases hall : (L.filter (·.kind ≠ .blank)).reverse.head?.all (·.kind = .newline)
      · refine extend t.start 0 ?_ (.inr rfl) ?_
        · revert hc
          cases t.kind <;> simp [Kind.isComment, Kind.isSignificant]
        · rw [hfilter, commentStart, if_neg hn, if_pos hc, if_pos hall]
      · refine .inl ?_
        rw [hfilter, commentStart, if_neg hn, if_pos hc, if_neg hall]
    · refine .inl ?_
      rw [hfilter, commentStart, if_neg hn, if_neg hc]

/-- Whether the last token of a declaration can end a statement. -/
def Decl.endsStatement (s : Text) (d : Decl) : Bool := (tokens s).any fun t => t.stop = d.span.stop && t.kind.endsStatement

lemma endStatements_cons_of_isSignificant (hu : u.kind.isSignificant) :
    endStatements size e ((u :: L).filter (·.kind ≠ .blank)) =
      u :: endStatements size u.kind.endsStatement (L.filter (·.kind ≠ .blank)) := by
  obtain ⟨hbreak, hother⟩ := not_breaksLine_of_isSignificant (l := u.lexeme) hu
  have hbreak : u.breaksLine = false := hbreak
  have hblank : u.kind ≠ .blank := fun h => hother (.inl h)
  have hcomment : ¬ u.kind.isComment := fun h => hother (.inr h)
  rw [List.filter_cons_of_pos (by simpa using hblank), endStatements, hbreak, if_neg Bool.false_ne_true, if_neg hcomment]

lemma commentStartAt_eq {front : List Token} (h : tokens s = front ++ u :: L) (hu : u.kind.isSignificant) :
    commentStartAt ((tokens s).filter (·.kind ≠ .blank)) u.start =
      commentStart u.start 0 (front.filter (·.kind ≠ .blank)).reverse := by
  have hblank : u.kind ≠ .blank := fun hk => (not_breaksLine_of_isSignificant (l := u.lexeme) hu).2 (.inl hk)
  have hfront : ∀ v ∈ front.filter (·.kind ≠ .blank), decide (v.start ≠ u.start) = true := by
    intro v hv
    have hmem := (List.mem_filter.1 hv).1
    have hlt := start_lt_stop (u := v) (s := s) (by rw [h]; exact List.mem_append_left _ hmem)
    have := stop_le_of_tokens_eq h hmem
    exact decide_eq_true (by omega)
  rw [commentStartAt, h, List.filter_append, List.filter_cons_of_pos (by simpa using hblank),
    List.takeWhile_append_of_pos hfront, List.takeWhile_cons_of_neg (by simp), List.append_nil]

/-- Where a declaration stands among the tokens of its file: `front` is in front of it, `last` its last token. -/
structure Decl.StandsAt (s : Text) (x : Decl) (front body : List Token) (last : Token) (behind : List Token) : Prop where
  tokens : tokens s = front ++ (body ++ last :: behind)
  first : ∀ t ∈ (body ++ [last]).head?, t.kind.isSignificant
  significant : last.kind.isSignificant
  span : x.span = ⟨(joined (front.map Token.lexeme)).width, last.stop⟩
  comment : x.commentStart = Source.commentStart x.span.start 0 (front.filter (·.kind ≠ .blank)).reverse
  read : ∃ c d ts, Cursor.declKind c = .ok (x.kind, d) ∧ c.ahead = ts ++ d.ahead ∧
    ts.map Token.lexeme = statementPart false ((body ++ [last]).map Token.lexeme) ∧
    d.ahead = endStatements s.width last.kind.endsStatement (behind.filter (·.kind ≠ .blank)) ∧
    (∃ c', d.endDeclaration = .ok c') ∧ isBalanced [] (ts.map Token.lexeme)

lemma exists_standsAt (h : parse s = .ok tree) (hx : x ∈ tree.decls) :
    ∃ front body last behind, x.StandsAt s front body last behind := by
  have hb : isBalanced [] (lex s) := (parse_eq_ok h).2.1
  obtain ⟨y, c, c', hpass, hdecl, rfl⟩ := parse_decl h hx
  obtain ⟨d, hread, hd, hspan⟩ := Cursor.decl_eq_ok hdecl
  obtain ⟨u, ts, hreads, hkeyword⟩ := Cursor.declKind_reads hread
  obtain ⟨vs, hvs⟩ := hpass.suffix
  have hkey : u.kind ≠ .semi := by
    intro hk
    rw [hk] at hkeyword
    revert hkeyword
    decide
  -- the keyword stands in the text
  have hall : statementTokens s = vs ++ u :: (ts ++ d.ahead) := by
    rw [← List.cons_append, ← hreads.ahead]
    exact hvs.symm
  obtain ⟨front, L, hL, hu, -, hrest⟩ := endStatements_eq_append hall hkey
  -- and so does the last token
  obtain ⟨us, last, hlast⟩ : ∃ us last, u :: ts = us ++ [last] :=
    ⟨_, _, (List.dropLast_append_getLast (List.cons_ne_nil u ts)).symm⟩
  have hrest : endStatements s.width false ((u :: L).filter (·.kind ≠ .blank)) = us ++ last :: d.ahead := by
    rw [endStatements_cons_of_isSignificant hu, ← hrest, ← List.cons_append, hlast, List.append_assoc]
    rfl
  obtain ⟨body, behind, hbody, hsig, hpart, hbehind⟩ :=
    endStatements_eq_append hrest (hreads.last last (by rw [hlast]; simp))
  have hstart : c.start = u.start := by
    rw [Cursor.start, hreads.ahead]
    rfl
  have hfirst : ∀ t ∈ (body ++ [last]).head?, t.kind.isSignificant := by
    intro t ht
    have hhead : (u :: L).head? = (body ++ [last]).head? := by
      rw [hbody]
      cases body <;> rfl
    rw [← hhead] at ht
    cases ht
    exact hu
  refine ⟨front, body, last, behind, by rw [hL, hbody], hfirst, hsig, ?_, ?_, c, d, u :: ts, hread, hreads.ahead, by rw [hlast, hpart],
    hbehind, ⟨c', hd⟩, ?_⟩
  · show y.span = _
    rw [hspan, hreads.behind, hstart, start_of_tokens_eq hL, hlast]
    simp
  · show commentStartAt _ y.span.start = commentStart y.span.start 0 _
    rw [hspan, hstart, commentStartAt_eq hL hu]
  · have hc := hpass.balanced [] (by rwa [map_lexeme_statementTokens, isBalanced_statementLexemes])
    have hd := hreads.balanced [] hc
    rw [hreads.ahead, List.map_append] at hc
    exact isBalanced_left hc hd

lemma Decl.StandsAt.stop_eq {front body behind : List Token} {last : Token} (h : x.StandsAt s front body last behind) :
    x.span.stop = (joined (front.map Token.lexeme ++ (body ++ [last]).map Token.lexeme)).width := by
  rw [h.span, ← List.map_append, ← List.append_assoc]
  exact stop_of_tokens_eq (h.tokens.trans (List.append_assoc ..).symm)

/-- The text of lexemes that stand together. -/
lemma slice_of_lex {A B R : List Lexeme} (h : lex s = A ++ B ++ R) :
    Text.slice s (joined A).width (joined (A ++ B)).width = joined B := by
  have hs : s = joined A ++ (joined B ++ joined R) := by
    rw [← joined_append, ← joined_append, ← List.append_assoc, ← h, joined_lex]
  rw [joined_append, Text.width_append]
  conv_lhs => rw [hs]
  exact Text.slice_width_append

/-- The lexemes of a declaration. -/
def Decl.lexemes (x : Decl) (s : Text) : List Lexeme := lex (Text.slice s x.span.start x.span.stop)

lemma Decl.StandsAt.lexemes_eq {front body behind : List Token} {last : Token} (h : x.StandsAt s front body last behind)
    (hw : isWhole s) : x.lexemes s = (body ++ [last]).map Token.lexeme := by
  have hlex : lex s = front.map Token.lexeme ++ (body ++ [last]).map Token.lexeme ++ behind.map Token.lexeme := by
    rw [← map_lexeme_tokens, h.tokens]
    simp
  rw [Decl.lexemes, h.stop_eq, h.span, slice_of_lex hlex]
  exact (isLexed_of_lex hlex hw).left.right.1

/-- The last token of a declaration ends its statement. -/
lemma Decl.StandsAt.endsStatement {front body behind : List Token} {last : Token} (h : x.StandsAt s front body last behind)
    (hend : x.endsStatement s) : last.kind.endsStatement := by
  obtain ⟨t, ht, hstop⟩ := List.any_eq_true.1 hend
  rw [Bool.and_eq_true, decide_eq_true_eq, h.span] at hstop
  have hmem : last ∈ Source.tokens s := by
    rw [h.tokens]
    simp
  rw [← eq_of_stop_eq ht hmem hstop.1]
  exact hstop.2

/-- The comment block above a declaration, which may be empty. -/
lemma Decl.StandsAt.exists_comments {front body behind : List Token} {last : Token} (h : x.StandsAt s front body last behind) :
    ∃ P C, front = P ++ C ∧ (∀ v ∈ C, v.kind.isSignificant = false) ∧ x.commentStart = (joined (P.map Token.lexeme)).width := by
  rw [h.comment]
  rcases commentStart_cases x.span.start 0 front with e | ⟨P, t, C, hfront, hC, e⟩
  · exact ⟨front, [], by simp, by simp, by rw [e, h.span]⟩
  · refine ⟨P, t :: C, hfront, hC, ?_⟩
    rw [e]
    exact start_of_tokens_eq (h.tokens.trans (by rw [hfront, List.append_assoc, List.cons_append]))

/-- **A declaration of a file is a section** together with the comment block above it. -/
theorem isSection_of_mem_decls (h : parse s = .ok tree) (hx : x ∈ tree.decls) (hend : x.endsStatement s) :
    IsSection (Text.slice s x.commentStart x.span.stop ++ ['\n']) [x.kind.shape] := by
  have hw : isWhole s := (parse_eq_ok h).1
  obtain ⟨front, body, last, behind, hat⟩ := exists_standsAt h hx
  obtain ⟨c, d, ts, hread, hc, hpart, hd, ⟨c', hend'⟩, hbalanced⟩ := hat.read
  have hlast := hat.endsStatement hend
  obtain ⟨semi, rest, hrest, hsemi⟩ : ∃ semi rest, d.ahead = semi :: rest ∧ semi.kind = .semi := by
    rcases Cursor.endDeclaration_eq_ok hend' with ⟨hnil, -⟩ | ⟨semi, hsemi, e, -⟩
    · rw [hd, hlast] at hnil
      exact absurd hnil endStatements_ne_nil
    · exact ⟨semi, _, e, hsemi⟩
  -- the text with the comments above
  obtain ⟨P, C, rfl, hC, hstart⟩ := hat.exists_comments
  obtain ⟨B, hB⟩ : ∃ B, B = C.map Token.lexeme ++ (body ++ [last]).map Token.lexeme := ⟨_, rfl⟩
  have hlex : lex s = P.map Token.lexeme ++ B ++ behind.map Token.lexeme := by
    rw [← map_lexeme_tokens, hat.tokens, hB]
    simp
  have htext : Text.slice s x.commentStart x.span.stop = joined B := by
    rw [hstart, hat.stop_eq, List.map_append, List.append_assoc, ← hB, slice_of_lex hlex]
  have hlexed : IsLexed B := (isLexed_of_lex hlex hw).left.right
  have hnewline : lex (joined B ++ ['\n']) = B ++ [⟨.newline, ['\n']⟩] := by
    rw [hlexed.lex_append_newline, lex_nil]
  -- its statements
  have hcomments := statementPart_of_forall_not_isSignificant (show ∀ l ∈ C.map Token.lexeme, l.kind.isSignificant = false by simpa using hC)
  have hstatements : statementPart false (lex (joined B ++ ['\n'])) = ts.map Token.lexeme ++ [.impliedSemi] := by
    have hend : endingBehind false ((body ++ [last]).map Token.lexeme) = true := by
      rw [List.map_append, endingBehind_append, List.map_singleton,
        endingBehind_cons_of_isSignificant (l := last.lexeme) hat.significant]
      exact hlast
    rw [hnewline, statementPart_append, hB, statementPart_append, endingBehind_append, hcomments.1, hcomments.2, hend, ← hpart]
    rfl
  have hbalanced' : isBalanced [] (lex (joined B ++ ['\n'])) := by
    have hend : endingBehind false (lex (joined B ++ ['\n'])) = false := by
      rw [hnewline, endingBehind_append]
      simp [endingBehind, Lexeme.breaksLine]
    rw [← isBalanced_statementLexemes (e := false), statementLexemes, hstatements, hend, if_neg Bool.false_ne_true,
      List.append_nil, isBalanced_append hbalanced]
    rfl
  have hwhole' : isWhole (joined B ++ ['\n']) := by
    rw [isWhole_iff, hnewline]
    intro l hl
    rcases List.mem_append.1 hl with hl | hl
    · exact hlexed.2 l hl
    · rw [List.mem_singleton.1 hl]
      rfl
  rw [htext]
  exact isSection_of_declKind hwhole' (by rw [hnewline, List.getLast?_concat]) hbalanced' hstatements rfl (hrest ▸ hc) hsemi
    hread hrest

end RuleWeaver.Source
