import RuleWeaver.Proofs.Source.Sections

/-!
# A tree accounts for its file

The readers of declarations cut the tokens of a file into blocks, with statement ends between them; the spans of a tree are
those of the blocks (`Tiles`).  So every token is in one span, the spans follow each other, and what stands between a
declaration and the one in front of it is white space, comments and statement ends (`parse_covers`).
-/

namespace RuleWeaver.Source

variable {s : Text} {a b : Span} {as : List Span} {c c' d : Cursor} {t u : Token} {ts block rest : List Token} {tree : Tree}

/-! ### Blocks of tokens -/

/-- Whether a span is that of a block of tokens, of which neither the first nor the last is a statement end. -/
inductive IsBlock (block : List Token) : Span → Prop
  | intro {first last : Token} (hfirst : block.head? = some first) (hlast : block.getLast? = some last)
      (hk : first.kind ≠ .semi) (hk' : last.kind ≠ .semi) : IsBlock block ⟨first.start, last.stop⟩

/-- Whether tokens are blocks with the given spans, with statement ends between them. -/
inductive Tiles : List Token → List Span → Prop
  | nil : Tiles [] []
  | semi {t : Token} {ts : List Token} {as : List Span} (ht : t.kind = .semi) (h : Tiles ts as) : Tiles (t :: ts) as
  | block {block ts : List Token} {a : Span} {as : List Span} (hblock : IsBlock block a) (h : Tiles ts as) :
      Tiles (block ++ ts) (a :: as)

/-- Whether a token is inside a span. -/
def Token.isWithin (t : Token) (a : Span) : Bool := a.start ≤ t.start && t.stop ≤ a.stop

/-- Whether tokens follow each other, those that stand for statement ends apart. -/
def AreOrdered (ts : List Token) : Prop :=
  ts.Pairwise fun t u => t.kind ≠ .semi → u.kind ≠ .semi → t.stop ≤ u.start

lemma Token.start_le_stop (t : Token) : t.start ≤ t.stop := Nat.le_add_right _ _

namespace IsBlock

lemma exists_start (h : IsBlock block a) : ∃ t ∈ block, t.kind ≠ .semi ∧ t.start = a.start := by
  obtain ⟨hfirst, -, hk, -⟩ := h
  exact ⟨_, List.mem_of_head? hfirst, hk, rfl⟩

lemma exists_stop (h : IsBlock block a) : ∃ t ∈ block, t.kind ≠ .semi ∧ t.stop = a.stop := by
  obtain ⟨-, hlast, -, hk⟩ := h
  exact ⟨_, List.mem_of_getLast? hlast, hk, rfl⟩

lemma isWithin (h : IsBlock block a) (hordered : AreOrdered block) (ht : t ∈ block) (hk : t.kind ≠ .semi) : t.isWithin a := by
  obtain @⟨first, last, hfirst, hlast, hk₁, hk₂⟩ := h
  have hstart : first.start ≤ t.start := by
    obtain ⟨tail, rfl⟩ := List.head?_eq_some_iff.1 hfirst
    rcases List.mem_cons.1 ht with rfl | ht
    · exact Nat.le_refl _
    · exact Nat.le_trans first.start_le_stop ((List.pairwise_cons.1 hordered).1 t ht hk₁ hk)
  have hstop : t.stop ≤ last.stop := by
    obtain ⟨front, rfl⟩ := List.getLast?_eq_some_iff.1 hlast
    rcases List.mem_append.1 ht with ht | ht
    · exact Nat.le_trans ((List.pairwise_append.1 hordered).2.2 t ht last (by simp) hk hk₂) last.start_le_stop
    · rw [List.mem_singleton.1 ht]
  simp [Token.isWithin, hstart, hstop]

end IsBlock

namespace Tiles

lemma exists_start (h : Tiles ts as) (ha : a ∈ as) : ∃ t ∈ ts, t.kind ≠ .semi ∧ t.start = a.start := by
  induction h with
  | nil => cases ha
  | semi _ _ ih =>
    obtain ⟨t, ht, h⟩ := ih ha
    exact ⟨t, List.mem_cons_of_mem _ ht, h⟩
  | block hblock _ ih =>
    rcases List.mem_cons.1 ha with rfl | ha
    · obtain ⟨t, ht, h⟩ := hblock.exists_start
      exact ⟨t, List.mem_append_left _ ht, h⟩
    · obtain ⟨t, ht, h⟩ := ih ha
      exact ⟨t, List.mem_append_right _ ht, h⟩

lemma exists_stop (h : Tiles ts as) (ha : a ∈ as) : ∃ t ∈ ts, t.kind ≠ .semi ∧ t.stop = a.stop := by
  induction h with
  | nil => cases ha
  | semi _ _ ih =>
    obtain ⟨t, ht, h⟩ := ih ha
    exact ⟨t, List.mem_cons_of_mem _ ht, h⟩
  | block hblock _ ih =>
    rcases List.mem_cons.1 ha with rfl | ha
    · obtain ⟨t, ht, h⟩ := hblock.exists_stop
      exact ⟨t, List.mem_append_left _ ht, h⟩
    · obtain ⟨t, ht, h⟩ := ih ha
      exact ⟨t, List.mem_append_right _ ht, h⟩

/-- The spans follow each other. -/
lemma pairwise (h : Tiles ts as) (hordered : AreOrdered ts) : as.Pairwise (·.stop ≤ ·.start) := by
  induction h with
  | nil => exact .nil
  | semi _ _ ih => exact ih hordered.of_cons
  | @block block ts a as hblock h ih =>
    obtain ⟨-, hrest, hacross⟩ := List.pairwise_append.1 hordered
    refine .cons (fun b hb => ?_) (ih hrest)
    obtain ⟨t, ht, hk, hstop⟩ := hblock.exists_stop
    obtain ⟨u, hu, hk', hstart⟩ := h.exists_start hb
    rw [← hstop, ← hstart]
    exact hacross t ht u hu hk hk'

/-- **Every token is in one span.** -/
lemma countP_isWithin (h : Tiles ts as) (hordered : AreOrdered ts) (ht : t ∈ ts) (hk : t.kind ≠ .semi) (hlt : t.start < t.stop) :
    as.countP t.isWithin = 1 := by
  induction h with
  | nil => cases ht
  | @semi u _ _ hu _ ih =>
    refine ih hordered.of_cons ((List.mem_cons.1 ht).resolve_left ?_)
    rintro rfl
    exact hk hu
  | @block block ts a as hblock h ih =>
    obtain ⟨hinside, hrest, hacross⟩ := List.pairwise_append.1 hordered
    rcases List.mem_append.1 ht with ht | ht
    · have hbehind : as.countP t.isWithin = 0 := by
        refine List.countP_eq_zero.2 fun b hb hwithin => ?_
        obtain ⟨u, hu, hk', hstart⟩ := h.exists_start hb
        have := hacross t ht u hu hk hk'
        simp only [Token.isWithin, Bool.and_eq_true, decide_eq_true_eq] at hwithin
        omega
      rw [List.countP_cons_of_pos (hblock.isWithin hinside ht hk), hbehind]
    · have hfront : ¬ t.isWithin a := by
        intro hwithin
        obtain ⟨u, hu, hk', hstop⟩ := hblock.exists_stop
        have := hacross u hu t ht hk' hk
        simp only [Token.isWithin, Bool.and_eq_true, decide_eq_true_eq] at hwithin
        omega
      rw [List.countP_cons_of_neg hfront, ih hrest ht]

end Tiles

/-! ### The order of tokens -/

lemma sublist_endStatements {size : Nat} {e : Bool} : ((endStatements size e ts).filter (·.kind ≠ .semi)).Sublist ts := by
  induction ts generalizing e with
  | nil => cases e <;> simp [endStatements, Token.impliedSemi]
  | cons t ts ih =>
    rw [endStatements]
    split
    · split
      · rw [List.filter_cons_of_neg (by simp [Token.impliedSemi])]
        exact ih.cons t
      · exact ih.cons t
    split
    · exact ih.cons t
    · rw [List.filter_cons]
      split
      · exact ih.cons_cons t
      · exact ih.cons t

lemma mem_endStatements {size : Nat} {e : Bool} (ht : t ∈ ts) (h : t.kind.isSignificant) : t ∈ endStatements size e ts := by
  induction ts generalizing e with
  | nil => cases ht
  | cons u ts ih =>
    obtain ⟨hbreak, hother⟩ := not_breaksLine_of_isSignificant (l := t.lexeme) h
    rcases List.mem_cons.1 ht with rfl | ht
    · have hbreak : t.breaksLine = false := hbreak
      have hcomment : ¬ t.kind.isComment := fun hc => hother (.inr hc)
      rw [endStatements, hbreak, if_neg Bool.false_ne_true, if_neg hcomment]
      exact List.mem_cons_self
    · rw [endStatements]
      split
      · split
        · exact List.mem_cons_of_mem _ (ih ht)
        · exact ih ht
      split
      · exact ih ht
      · exact List.mem_cons_of_mem _ (ih ht)

/-- The tokens of statements are those that carry meaning, and statement ends. -/
lemma mem_statementTokens (hk : t.kind ≠ .semi) : t ∈ statementTokens s ↔ t ∈ tokens s ∧ t.kind.isSignificant := by
  constructor
  · intro h
    obtain ⟨ts, rest, hts⟩ := List.append_of_mem h
    obtain ⟨L₁, L₂, hL, hsignificant, -⟩ := endStatements_eq_append hts hk
    exact ⟨by rw [hL]; simp, hsignificant⟩
  · rintro ⟨ht, hsignificant⟩
    refine mem_endStatements (List.mem_filter.2 ⟨ht, ?_⟩) hsignificant
    exact decide_eq_true fun hblank => by
      rw [hblank] at hsignificant
      cases hsignificant

lemma le_start_of_mem_place {n : Nat} {ls : List Lexeme} (h : t ∈ place n ls) : n ≤ t.start := by
  obtain ⟨xs, ys, -, hstart⟩ := mem_place.1 h
  omega

lemma pairwise_place {n : Nat} {ls : List Lexeme} : (place n ls).Pairwise (·.stop ≤ ·.start) := by
  induction ls generalizing n with
  | nil => exact .nil
  | cons l ls ih =>
    rw [place_cons]
    exact .cons (fun t ht => le_start_of_mem_place ht) ih

lemma areOrdered_statementTokens : AreOrdered (statementTokens s) := by
  have hsublist : ((statementTokens s).filter (·.kind ≠ .semi)).Sublist (tokens s) :=
    sublist_endStatements.trans List.filter_sublist
  have hordered : ((statementTokens s).filter (·.kind ≠ .semi)).Pairwise (·.stop ≤ ·.start) := pairwise_place.sublist hsublist
  rw [List.pairwise_filter] at hordered
  exact hordered.imp fun h hk hk' => h (by simpa using hk) (by simpa using hk')

/-! ### What readers read -/

/-- What a reader reads is a block, if it begins with no statement end. -/
lemma Cursor.Reads.isBlock (h : c.Reads ts d) (hne : ts ≠ []) (hk : c.kind? ≠ some .semi) : IsBlock ts ⟨c.start, d.behind⟩ := by
  obtain ⟨first, tail, rfl⟩ := List.exists_cons_of_ne_nil hne
  have hlast := List.getLast?_eq_some_getLast (List.cons_ne_nil first tail)
  have hstart : c.start = first.start := by
    rw [Cursor.start, h.ahead]
    rfl
  have hfirst : first.kind ≠ .semi := by
    intro e
    rw [Cursor.kind?, h.ahead] at hk
    exact hk (congrArg some e)
  rw [hstart, h.behind, hlast]
  exact .intro rfl hlast hfirst (h.last _ hlast)

lemma Cursor.Reads.tiles (h : c.Reads ts d) (hne : ts ≠ []) (hk : c.kind? ≠ some .semi) (hend : d.endDeclaration = .ok c')
    (hrest : Tiles c'.ahead as) : Tiles c.ahead (⟨c.start, d.behind⟩ :: as) := by
  rw [h.ahead]
  refine .block (h.isBlock hne hk) ?_
  rcases Cursor.endDeclaration_eq_ok hend with ⟨-, rfl⟩ | ⟨t, ht, hahead, -⟩
  · exact hrest
  · rw [hahead]
    exact .semi ht hrest

lemma Tiles.of_pastSemis (h : Tiles c.pastSemis.ahead as) : Tiles c.ahead as := by
  obtain ⟨n, ts⟩ := c
  change Tiles (ts.dropWhile (·.kind = .semi)) as at h
  change Tiles ts as
  induction ts with
  | nil => exact h
  | cons t ts ih =>
    by_cases ht : t.kind = .semi
    · rw [List.dropWhile_cons_of_pos (by simpa using ht)] at h
      exact .semi ht (ih h)
    · rwa [List.dropWhile_cons_of_neg (by simpa using ht)] at h

lemma pastSemis_kind?_ne : c.pastSemis.kind? ≠ some .semi := by
  intro h
  obtain ⟨t, ts, hahead, hk⟩ := Cursor.kind?_eq_some h
  have hnot := List.head?_dropWhile_not (fun t : Token => decide (t.kind = .semi)) c.ahead
  rw [show c.ahead.dropWhile (fun t : Token => decide (t.kind = .semi)) = t :: ts from hahead] at hnot
  simp [hk] at hnot

lemma tiles_decls {ds : List Decl} (h : c.decls = .ok ds) : Tiles c.ahead (ds.map (·.span)) := by
  fun_induction Cursor.decls c generalizing ds with
  | case1 c hk =>
    cases h
    refine .of_pastSemis ?_
    rw [show c.pastSemis.ahead = [] by simpa [Cursor.kind?] using hk]
    exact .nil
  | case2 => cases h
  | case3 c hk d c' hread hlt ih =>
    obtain ⟨ds', hrest, rfl⟩ := exists_of_map_eq_ok h
    obtain ⟨e, hkind, hend, hspan⟩ := Cursor.decl_eq_ok hread
    obtain ⟨t, ts, hreads, -⟩ := Cursor.declKind_reads hkind
    rw [List.map_cons, hspan]
    exact .of_pastSemis (hreads.tiles (List.cons_ne_nil _ _) pastSemis_kind?_ne hend (ih hrest))

lemma tiles_imports {is : List ImportDecl} (h : c.imports = .ok (is, c')) (hrest : Tiles c'.ahead as) :
    Tiles c.ahead (is.map (·.span) ++ as) := by
  fun_induction Cursor.imports c generalizing is with
  | case1 => cases h
  | case2 c hk i d hread hlt ih =>
    obtain ⟨r, hmore, h⟩ := exists_of_map_eq_ok h
    simp only [Prod.mk.injEq] at h
    obtain ⟨rfl, rfl⟩ := h
    obtain ⟨ts, e, hone, hreads, hend, hspan⟩ := importDecl_eq_ok hk hread
    have hne := hreads.ne_nil (Nat.lt_of_le_of_lt (oneOrGroup_size_le hone) (Cursor.advance_size_lt hk))
    rw [List.map_cons, List.cons_append, hspan]
    exact .of_pastSemis (hreads.tiles hne pastSemis_kind?_ne hend (ih hmore))
  | case3 =>
    cases h
    exact hrest

/-! ### Comment blocks -/

/-- Between the begin of a comment block and the code below it stand comments and white space alone, and no code is behind the
begin of the block that was in front of the code. -/
lemma commentStartAt_gap (hu : u ∈ tokens s) (hsignificant : u.kind.isSignificant) :
    (∃ A G B, lex s = A ++ G ++ B ∧ (joined A).width = commentStartAt ((tokens s).filter (·.kind ≠ .blank)) u.start ∧
      (joined (A ++ G)).width = u.start ∧ ∀ l ∈ G, l.kind.isSignificant = false) ∧
    ∀ v ∈ tokens s, v.kind.isSignificant → v.stop ≤ u.start →
      v.stop ≤ commentStartAt ((tokens s).filter (·.kind ≠ .blank)) u.start := by
  obtain ⟨front, L, hL⟩ := List.append_of_mem hu
  have hlex : lex s = front.map Token.lexeme ++ u.lexeme :: L.map Token.lexeme := by
    rw [← map_lexeme_tokens, hL, List.map_append, List.map_cons]
  have hstart := start_of_tokens_eq hL
  rw [commentStartAt_eq hL hsignificant]
  rcases commentStart_cases u.start 0 front with e | ⟨P, t, G, rfl, hG, e⟩ <;> rw [e]
  · refine ⟨⟨front.map Token.lexeme, [], u.lexeme :: L.map Token.lexeme, ?_, hstart.symm, ?_, by simp⟩, fun _ _ _ => id⟩
    · rw [List.append_nil, hlex]
    · rw [List.append_nil, hstart]
  have ht : t.start = (joined (P.map Token.lexeme)).width :=
    start_of_tokens_eq (hL.trans (by rw [List.append_assoc, List.cons_append]))
  refine ⟨⟨P.map Token.lexeme, (t :: G).map Token.lexeme, u.lexeme :: L.map Token.lexeme, ?_, ht.symm, ?_, by simpa using hG⟩, ?_⟩
  · rw [hlex, List.map_append]
  · rw [hstart, List.map_append]
  · intro v hv hsig hstop
    have hlt := start_lt_stop hv
    rw [hL, List.mem_append, List.mem_append] at hv
    rcases hv with (hv | hv) | hv
    · exact stop_le_of_tokens_eq (hL.trans (by rw [List.append_assoc, List.cons_append])) hv
    · rw [hG v hv] at hsig
      cases hsig
    · -- what is behind the code does not end in front of it
      rcases List.mem_cons.1 hv with rfl | hv
      · omega
      · obtain ⟨A, B, rfl⟩ := List.append_of_mem hv
        have htokens : tokens s = (P ++ t :: G ++ u :: A) ++ v :: B := by rw [hL]; simp
        have := stop_le_of_tokens_eq htokens (by simp : u ∈ _)
        have := start_lt_stop hu
        omega

/-! ### Whole files -/

/-- An import or another declaration: where the comment block above it begins, and its span. -/
structure Part where
  commentStart : Nat
  span : Span

/-- The part with its comment block. -/
def Part.full (p : Part) : Span := ⟨p.commentStart, p.span.stop⟩

/-- The imports and the declarations of a file. -/
def Tree.parts (t : Tree) : List Part :=
  (t.imports.map fun i => ⟨i.commentStart, i.span⟩) ++ t.decls.map fun d => ⟨d.commentStart, d.span⟩

/-- Whether a tree accounts for its source, which has the given tokens. -/
structure Tree.Covers (t : Tree) (s : Text) (ts : List Token) : Prop where
  /-- Every token that is no comment, no line break and no semicolon is in one span. -/
  once : ∀ u ∈ ts, u.kind.isSignificant → u.kind ≠ .semi → (t.package.span :: t.parts.map (·.span)).countP u.isWithin = 1
  /-- The spans follow each other. -/
  ordered : (t.package.span :: t.parts.map (·.span)).Pairwise (·.stop ≤ ·.start)
  /-- So do the spans with the comment blocks. -/
  apart : (t.package.span :: t.parts.map Part.full).Pairwise (·.stop ≤ ·.start)
  /-- Between the begin of a comment block and its part stand comments, blanks and line breaks alone. -/
  comments : ∀ p ∈ t.parts, ∃ A G B, lex s = A ++ G ++ B ∧ (joined A).width = p.commentStart ∧
    (joined (A ++ G)).width = p.span.start ∧ ∀ l ∈ G, l.kind.isSignificant = false

lemma parts_withComments {all : List Token} :
    (tree.withComments all).parts = tree.parts.map fun p => ⟨commentStartAt all p.span.start, p.span⟩ := by
  simp [Tree.parts, Tree.withComments, Function.comp_def]

lemma exists_tiles (h : parse s = .ok tree) : Tiles (statementTokens s) (tree.package.span :: tree.parts.map (·.span)) := by
  obtain ⟨-, -, package, c, is, c', ds, hpackage, himports, hdecls, rfl⟩ := parse_eq_ok h
  obtain ⟨keyword, name, d, hreads, -, -, hend, rfl⟩ := packageClause_eq_ok hpackage
  have htiles := hreads.tiles (List.cons_ne_nil _ _) pastSemis_kind?_ne hend (tiles_imports himports (tiles_decls hdecls))
  have hspan : (⟨(Cursor.mk 0 (statementTokens s)).pastSemis.start, d.behind⟩ : Span) = ⟨keyword.start, name.stop⟩ := by
    rw [Cursor.start, hreads.ahead, hreads.behind]
    rfl
  have hparts : (Tree.withComments ((tokens s).filter (·.kind ≠ .blank)) ⟨⟨name.text, ⟨keyword.start, name.stop⟩⟩, is, ds⟩).parts.map
      (·.span) = is.map (·.span) ++ ds.map (·.span) := by
    rw [parts_withComments]
    simp [Tree.parts, Function.comp_def]
  rw [hspan, ← hparts] at htiles
  exact htiles.of_pastSemis

/-- Comment blocks are attached by where their parts begin. -/
lemma commentStart_of_mem_parts (h : parse s = .ok tree) {p : Part} (hp : p ∈ tree.parts) :
    p.commentStart = commentStartAt ((tokens s).filter (·.kind ≠ .blank)) p.span.start := by
  obtain ⟨-, -, package, c, is, c', ds, -, -, -, rfl⟩ := parse_eq_ok h
  rw [parts_withComments] at hp
  obtain ⟨q, -, rfl⟩ := List.mem_map.1 hp
  rfl

/-- **A tree accounts for its file.** -/
theorem parse_covers (h : parse s = .ok tree) : ∃ ts, tokenize s = .ok ts ∧ tree.Covers s ts := by
  obtain ⟨hw, hb, -⟩ := parse_eq_ok h
  have htiles := exists_tiles h
  have hordered := htiles.pairwise areOrdered_statementTokens
  -- what ends in front of a part ends in front of its comment block
  have hclear : ∀ a ∈ tree.package.span :: tree.parts.map (·.span), ∀ p ∈ tree.parts, a.stop ≤ p.span.start →
      a.stop ≤ p.commentStart := by
    intro a ha p hp hle
    obtain ⟨v, hv, hk, hstop⟩ := htiles.exists_stop ha
    obtain ⟨u, hu, hk', hstart⟩ := htiles.exists_start (List.mem_cons_of_mem _ (List.mem_map_of_mem hp))
    obtain ⟨hv, hsignificant⟩ := (mem_statementTokens hk).1 hv
    obtain ⟨hu, hsignificant'⟩ := (mem_statementTokens hk').1 hu
    rw [commentStart_of_mem_parts h hp, ← hstop, ← hstart]
    exact (commentStartAt_gap hu hsignificant').2 v hv hsignificant (by rwa [hstop, hstart])
  refine ⟨_, tokenize_eq_ok_iff.2 ⟨hw, hb, rfl⟩, ?_, hordered, ?_, ?_⟩
  · intro u hu hsignificant hk
    have hmem := (List.mem_filter.1 hu).1
    exact htiles.countP_isWithin areOrdered_statementTokens ((mem_statementTokens hk).2 ⟨hmem, hsignificant⟩) hk (start_lt_stop hmem)
  · obtain ⟨hfirst, hrest⟩ := List.pairwise_cons.1 hordered
    refine List.pairwise_cons.2 ⟨?_, ?_⟩
    · intro a ha
      obtain ⟨p, hp, rfl⟩ := List.mem_map.1 ha
      exact hclear _ List.mem_cons_self p hp (hfirst _ (List.mem_map_of_mem hp))
    · rw [List.pairwise_map] at hrest ⊢
      exact hrest.imp_of_mem fun hp hq hle => hclear _ (List.mem_cons_of_mem _ (List.mem_map_of_mem hp)) _ hq hle
  · intro p hp
    obtain ⟨u, hu, hk, hstart⟩ := htiles.exists_start (List.mem_cons_of_mem _ (List.mem_map_of_mem hp))
    obtain ⟨hu, hsignificant⟩ := (mem_statementTokens hk).1 hu
    rw [commentStart_of_mem_parts h hp, ← hstart]
    exact (commentStartAt_gap hu hsignificant).1

/-- A file with comment blocks above its import and its type, and a comment behind the type. -/
def commentedFile : Text := "package a;\n// i\nimport (\n\t\"b\"\n)\n\n// T\ntype T int // t\n"

def commentedTree : Tree where
  package := ⟨"a", ⟨0, 9⟩⟩
  imports := [⟨[⟨none, "b", ⟨26, 29⟩⟩], ⟨16, 31⟩, 11, true⟩]
  decls := [⟨.types [⟨"T", none⟩], ⟨38, 48⟩, 33⟩]

/-- That file is accounted for. -/
theorem commentedTree_covers :
    parse commentedFile = .ok commentedTree ∧ ∃ ts, tokenize commentedFile = .ok ts ∧ commentedTree.Covers commentedFile ts := by
  have h : parse commentedFile = .ok commentedTree := by
    apply ok_of_toOption
    unfold commentedFile
    repeat rw [String.toList_ofList]
    decide +kernel
  exact ⟨h, parse_covers h⟩

end RuleWeaver.Source
