import RuleWeaver.Proofs.Source.ImportLines

/-!
# The head of a file

A file is a head, made of its package clause and its imports, and declarations.  Where both are known to be code, a text is
read by putting them together (`parse_of_head`); a file that is read can be taken apart (`exists_head`), and its tokens can be
cut behind the head (`Head.exists_cut`).
-/

namespace RuleWeaver.Source

variable {s t : Text} {c c' c₂ d : Cursor} {ts us rest : List Token} {u v semi : Token} {l : Lexeme} {L R xs : List Lexeme}
  {ks ls : List DeclKind} {K H : List Kind} {kind : DeclKind} {tree : Tree}

/-! ### Declarations up to the end of a file -/

/-- Whether code is read as declarations of the given shapes, up to the end of a file. -/
def ReadsAs (L : List Lexeme) (ks : List DeclKind) : Prop :=
  ∀ c : Cursor, c.ahead.map Token.lexeme = L → ∃ ds, c.decls = .ok ds ∧ ds.map (·.kind.shape) = ks

lemma decls_congr (h : c.pastSemis = d.pastSemis) : c.decls = d.decls := by
  rw [decls_eq, decls_eq, h]

lemma pastSemis_pastSemis : c.pastSemis.pastSemis = c.pastSemis := by
  rcases h : c.pastSemis.ahead with _ | ⟨t, ts⟩
  · rw [Cursor.pastSemis, h]
    simp [Cursor.pastSemis] at h ⊢
    exact h
  · have hhead := List.head?_dropWhile_not (fun t : Token => decide (t.kind = .semi)) c.ahead
    rw [show c.ahead.dropWhile (·.kind = .semi) = t :: ts from h] at hhead
    exact pastSemis_eq_self h (by simpa using hhead)

lemma decls_pastSemis : c.pastSemis.decls = c.decls := decls_congr pastSemis_pastSemis

lemma dropWhile_semis {n : ℕ} (h : ts.map (·.kind) = List.replicate n .semi) :
    (ts ++ us).dropWhile (·.kind = .semi) = us.dropWhile (·.kind = .semi) := by
  refine List.dropWhile_append_of_pos fun t ht => ?_
  have := List.mem_map_of_mem (f := (·.kind)) ht
  rw [h] at this
  exact decide_eq_true (List.eq_of_mem_replicate this)

/-- Declarations have the same shapes wherever they stand. -/
lemma readsAs_of_decls {ds : List Decl} (h : c.decls = .ok ds) : ReadsAs (c.ahead.map Token.lexeme) (ds.map (·.kind.shape)) := by
  intro d hd
  have hagree : Agree Eq [] [] c d :=
    .of_sameCode (.of_lexemes hd.symm) (List.append_nil _).symm (List.append_nil _).symm (.inl ⟨rfl, rfl⟩)
  obtain ⟨es, hes, hlike⟩ := decls_agree hagree h
  refine ⟨es, hes, ?_⟩
  clear h hes
  induction hlike with
  | nil => rfl
  | cons h _ ih => rw [List.map_cons, List.map_cons, ih, h.shape_eq]

/-- No import stands in front of declarations. -/
lemma kind?_of_decls {ds : List Decl} (h : c.decls = .ok ds) : c.pastSemis.kind? ≠ some .importWord := by
  intro hk
  rw [decls_eq, if_neg (by rw [hk]; simp)] at h
  split at h
  · cases h
  · next x d hread =>
    obtain ⟨f, hkind, -⟩ := Cursor.decl_eq_ok hread
    rw [Cursor.declKind, hk] at hkind
    exact Cursor.unmet_ne_ok hkind

/-- Where the code is the same, it is the same past the statement ends. -/
lemma exists_pastSemis (hc : c.pastSemis.ahead ≠ []) (hc₂ : c₂.ahead = us ++ rest) (hus : us.map Token.lexeme = c.ahead.map Token.lexeme) :
    ∃ vs, c₂.pastSemis.ahead = vs ++ rest ∧ vs.map Token.lexeme = c.pastSemis.ahead.map Token.lexeme := by
  obtain ⟨n, ss, hss, hn⟩ := exists_semis c
  rw [hss, List.map_append] at hus
  obtain ⟨ss₂, vs, rfl, hss₂, hvs⟩ := List.map_eq_append_iff.1 hus
  refine ⟨vs, ?_, hvs⟩
  have hkinds : ss₂.map (·.kind) = List.replicate n .semi := by
    rw [← hn]
    exact (SameCode.of_lexemes (P := Eq) hss₂).kinds
  obtain ⟨t, ts, hts⟩ := List.exists_cons_of_ne_nil hc
  have hne : t.kind ≠ .semi := by
    have hhead := List.head?_dropWhile_not (fun t : Token => decide (t.kind = .semi)) c.ahead
    rw [show c.ahead.dropWhile (·.kind = .semi) = t :: ts from hts] at hhead
    simpa using hhead
  rw [hts, List.map_cons] at hvs
  obtain ⟨v, vs, rfl, hv, -⟩ := List.map_eq_cons_iff.1 hvs
  have hne₂ : v.kind ≠ .semi := by rwa [show v.kind = t.kind from congrArg Lexeme.kind hv]
  rw [pastSemis_ahead hc₂, List.append_assoc, dropWhile_semis hkinds]
  simp [List.dropWhile_cons_of_neg (p := fun t : Token => decide (t.kind = .semi)) (by simpa using hne₂)]

/-- Declarations that end in a statement end are read in front of whatever follows. -/
lemma decls_prefix {ds : List Decl} (h : c.decls = .ok ds) (hlast : ∀ t ∈ c.ahead.getLast?, t.kind = .semi)
    (hc₂ : c₂.ahead = us ++ rest) (hus : us.map Token.lexeme = c.ahead.map Token.lexeme) :
    ∃ (es : List Decl) (c₂' : Cursor), c₂'.ahead = rest ∧ c₂.decls = c₂'.decls.map (es ++ ·) ∧
      es.map (·.kind.shape) = ds.map (·.kind.shape) := by
  fun_induction Cursor.decls c generalizing ds c₂ us with
  | case1 c hk =>
    cases h
    obtain ⟨n, ss, hss, hn⟩ := exists_semis c
    have hnil : c.pastSemis.ahead = [] := by simpa [Cursor.kind?] using hk
    rw [hnil, List.append_nil] at hss
    have hkinds : us.map (·.kind) = List.replicate n .semi := by
      rw [← hn, ← hss]
      exact (SameCode.of_lexemes (P := Eq) hus).kinds
    refine ⟨[], ⟨c₂.behind, rest⟩, rfl, ?_, rfl⟩
    have hcongr : c₂.decls = (Cursor.mk c₂.behind rest).decls :=
      decls_congr (by simp only [Cursor.pastSemis, hc₂, dropWhile_semis hkinds])
    rw [hcongr]
    cases (Cursor.mk c₂.behind rest).decls <;> rfl
  | case2 => cases h
  | case3 c hk x c' hread hlt ih =>
    obtain ⟨ds', hrest, rfl⟩ := exists_of_map_eq_ok h
    obtain ⟨f, hkind, hend, -⟩ := Cursor.decl_eq_ok hread
    obtain ⟨t, ts, hreads, -⟩ := Cursor.declKind_reads hkind
    obtain ⟨n, ss, hss, -⟩ := exists_semis c
    -- a statement end stands behind the declaration
    obtain ⟨semi, hsemi, hf, -⟩ := (Cursor.endDeclaration_eq_ok hend).resolve_left (by
      rintro ⟨hnil, -⟩
      obtain ⟨v, hv⟩ : ∃ v, (t :: ts).getLast? = some v := ⟨_, List.getLast?_cons⟩
      refine hreads.last v hv (hlast v ?_)
      rw [hss, hreads.ahead, hnil, List.append_nil, List.getLast?_append, hv]
      rfl)
    have hahead : c.pastSemis.ahead = t :: ts ++ semi :: c'.ahead := by rw [hreads.ahead, hf]
    obtain ⟨vs, hpast, hvs⟩ := exists_pastSemis (by rw [hahead]; simp) hc₂ hus
    rw [hahead, List.map_append] at hvs
    obtain ⟨ts₂, us₂, rfl, hts₂, hus₂⟩ := List.map_eq_append_iff.1 hvs
    obtain ⟨v, us', rfl, hv, hus'⟩ := List.map_eq_cons_iff.1 hus₂
    rw [List.append_assoc, List.cons_append] at hpast
    obtain ⟨x₂, d₂, hd₂, hdecls, hshape⟩ := decls_of_declKind hkind hahead hsemi hf hpast hts₂
      ((congrArg Lexeme.kind hv).trans hsemi)
    obtain ⟨es, c₂', hc₂', hes, hshapes⟩ := ih hrest (fun u hu => hlast u (by
      rw [hss, hahead, List.getLast?_append, List.getLast?_append, List.getLast?_cons, Option.mem_def.1 hu]
      rfl)) hd₂ hus'
    refine ⟨x₂ :: es, c₂', hc₂', ?_, by rw [List.map_cons, List.map_cons, hshape, hshapes]⟩
    rw [← decls_pastSemis, hdecls, hes]
    cases c₂'.decls <;> rfl

namespace ReadsAs

/-- Declarations that end in a statement end are read in front of whatever follows. -/
lemma front (h : ReadsAs L ks) (hlast : ∀ l ∈ L.getLast?, l.kind = .semi) (hc : c.ahead = ts ++ rest)
    (hts : ts.map Token.lexeme = L) :
    ∃ (ds : List Decl) (c' : Cursor), c'.ahead = rest ∧ c.decls = c'.decls.map (ds ++ ·) ∧ ds.map (·.kind.shape) = ks := by
  obtain ⟨ds, hds, rfl⟩ := h ⟨0, ts⟩ hts
  refine decls_prefix hds (fun t ht => ?_) hc rfl
  have ht : ts.getLast? = some t := ht
  exact hlast t.lexeme (by rw [← hts, List.getLast?_map, ht]; rfl)

lemma of_isSection (h : IsSection s ls) : ReadsAs (statementPart false (lex s)) ls := by
  intro c hc
  obtain ⟨ds, c', hc', hdecls, hshapes⟩ := h.decls c c.ahead [] (List.append_nil _).symm hc
  have hnil : c'.decls = .ok [] := by
    rw [Cursor.decls, if_pos]
    simp [Cursor.pastSemis, Cursor.kind?, hc']
  exact ⟨ds, by rw [hdecls, hnil]; simp [Except.map], hshapes⟩

/-- More declarations may stand behind. -/
lemma append (h : ReadsAs L ks) (hlast : ∀ l ∈ L.getLast?, l.kind = .semi) (h' : ReadsAs R ls) : ReadsAs (L ++ R) (ks ++ ls) := by
  intro c hc
  obtain ⟨ts, us, hahead, hts, hus⟩ := List.map_eq_append_iff.1 hc
  obtain ⟨ds, d, hd, hds, rfl⟩ := h.front hlast hahead hts
  obtain ⟨es, hes, rfl⟩ := h' d (by rw [hd, hus])
  exact ⟨ds ++ es, by rw [hds, hes]; rfl, List.map_append⟩

/-- One declaration in front of others. -/
lemma cons_decl (hread : c.declKind = .ok (kind, d)) (hc : c.ahead = ts ++ semi :: rest) (hsemi : semi.kind = .semi)
    (hd : d.ahead = semi :: rest) (hl : l.kind = .semi) (h : ReadsAs L ks) :
    ReadsAs (ts.map Token.lexeme ++ l :: L) (kind.shape :: ks) := by
  intro c₂ hc₂
  obtain ⟨us, vs, hahead, hus, hvs⟩ := List.map_eq_append_iff.1 hc₂
  obtain ⟨v, vs, rfl, hv, hvs⟩ := List.map_eq_cons_iff.1 hvs
  obtain ⟨x, c₂', hc₂', hdecls, hshape⟩ := decls_of_declKind hread hc hsemi hd hahead hus ((congrArg Lexeme.kind hv).trans hl)
  obtain ⟨ds, hds, rfl⟩ := h c₂' (by rw [hc₂', hvs])
  exact ⟨x :: ds, by rw [hdecls, hds]; rfl, by rw [List.map_cons, hshape]⟩

end ReadsAs

/-! ### Putting a head and declarations together -/

/-- Whether code is that of a package clause and imports, without the statement end behind them. -/
def IsHeadCode (K : List Kind) : Prop :=
  ∃ (n : ℕ) (I : List Kind), K ++ [.semi] = List.replicate n .semi ++ .packageWord :: .ident :: .semi :: I ∧ IsImportCode I

/-- **A text with a head is read from it on**: where the declarations begin, and the imports of the head. -/
theorem exists_file_of_head {xs : List Lexeme} (hs : statementLexemes false (lex s) = xs ++ l :: R)
    (hhead : IsHeadCode (xs.map Lexeme.kind)) (hl : l.kind = .semi) :
    ∃ c : Cursor, c.ahead.map Token.lexeme = R ∧ c.ahead <:+ statementTokens s ∧ (c.pastSemis.kind? ≠ some .importWord →
      ∃ p is, (Cursor.mk 0 (statementTokens s)).file = c.decls.map (fun ds => ⟨p, is, ds⟩) ∧
        (is.flatMap (·.specs)).map ImportSpec.line = importLines none xs) := by
  have hts := map_lexeme_statementTokens (s := s)
  rw [hs, ← List.singleton_append, ← List.append_assoc] at hts
  obtain ⟨hs', rest, htokens, hfront, hrest⟩ := List.map_eq_append_iff.1 hts
  obtain ⟨n, I, hI, hcode⟩ := hhead
  have hkinds : hs'.map (·.kind) = List.replicate n .semi ++ .packageWord :: .ident :: .semi :: I := by
    rw [← hI]
    have := congrArg (List.map Lexeme.kind) hfront
    rw [List.map_map, List.map_append, List.map_singleton, hl] at this
    exact this
  obtain ⟨semis, us, rfl, hsemis, hus⟩ := List.map_eq_append_iff.1 hkinds
  obtain ⟨k, us, rfl, hk, hus⟩ := List.map_eq_cons_iff.1 hus
  obtain ⟨m, us, rfl, hm, hus⟩ := List.map_eq_cons_iff.1 hus
  obtain ⟨v, is, rfl, hv, his⟩ := List.map_eq_cons_iff.1 hus
  -- the package clause
  have hclause : (Cursor.mk 0 (statementTokens s)).pastSemis.packageClause =
      .ok (⟨m.text, k.start, m.stop⟩, ⟨v.stop, is ++ rest⟩) := by
    rw [htokens, Cursor.pastSemis]
    dsimp only
    rw [List.append_assoc, dropWhile_semis hsemis, List.cons_append, List.dropWhile_cons_of_neg (by simp [hk])]
    exact Cursor.packageClause_of_kinds hk hm hv
  -- the imports
  obtain ⟨js, c', hc', himports⟩ := hcode.read (c := ⟨v.stop, is ++ rest⟩) his
    (fun hnil => by
      rw [hnil] at his
      rw [List.map_eq_nil_iff.1 his]
      rfl) (pastSemis_ahead rfl)
  refine ⟨c', by rw [hc', hrest], by rw [hc', htokens]; exact List.suffix_append _ _, fun hstop => ?_⟩
  rw [imports_of_stop hstop] at himports
  refine ⟨⟨m.text, k.start, m.stop⟩, js ++ [], ?_, ?_⟩
  · unfold Cursor.file
    simp only [bind_ok hclause, bind_ok himports]
    cases c'.decls <;> rfl
  · have his := Cursor.Lists.importLines_eq (imports_list himports) (show is ++ rest = is ++ c'.ahead by rw [hc'])
    rw [← his]
    have hnone : importLines none ((semis ++ [k, m]).map Token.lexeme) = [] := by
      refine importLines_eq_nil fun l hmem => ?_
      obtain ⟨t, ht, rfl⟩ := List.mem_map.1 hmem
      rw [Token.lexeme_kind]
      rcases List.mem_append.1 ht with ht | ht
      · have := List.mem_map_of_mem (f := (·.kind)) ht
        rw [hsemis] at this
        rw [List.eq_of_mem_replicate this]
        rfl
      · simp only [List.mem_cons, List.not_mem_nil, or_false] at ht
        rcases ht with rfl | rfl
        · rw [hk]
          rfl
        · rw [hm]
          rfl
    have hall : importLines none xs = importLines none ((semis ++ [k, m]).map Token.lexeme ++ v.lexeme :: is.map Token.lexeme) := by
      rw [← List.append_nil (importLines none xs), ← show importLines none [] = [] from rfl, ← importLines_semi hl, ← hfront]
      simp
    rw [hall, importLines_semi (l := v.lexeme) hv, hnone, List.nil_append]

/-- What a declaration is but for its comment block. -/
def Decl.core (d : Decl) : DeclKind × Span := (d.kind, d.span)

/-- **A text is read from its head and its declarations.** -/
theorem parse_of_head (hw : isWhole s) (hb : isBalanced [] (lex s)) {xs : List Lexeme}
    (hs : statementLexemes false (lex s) = xs ++ l :: R) (hhead : IsHeadCode (xs.map Lexeme.kind)) (hl : l.kind = .semi) :
    ∃ c : Cursor, c.ahead.map Token.lexeme = R ∧ c.ahead <:+ statementTokens s ∧ (c.pastSemis.kind? ≠ some .importWord →
      (∀ ds, c.decls = .ok ds → ∃ tree, parse s = .ok tree) ∧ ∀ tree, parse s = .ok tree →
        (∃ ds, c.decls = .ok ds ∧ tree.decls.map Decl.core = ds.map Decl.core) ∧
        (tree.imports.flatMap (·.specs)).map ImportSpec.line = importLines none xs) := by
  obtain ⟨c, hc, hsuffix, hfile⟩ := exists_file_of_head hs hhead hl
  refine ⟨c, hc, hsuffix, fun hstop => ?_⟩
  obtain ⟨p, is, hfile, hlines⟩ := hfile hstop
  constructor
  · intro ds hds
    rw [hds] at hfile
    exact ⟨_, parse_of_file hw hb hfile⟩
  · intro tree htree
    obtain ⟨-, -, u, hu, rfl⟩ := file_of_parse htree
    rw [hfile] at hu
    obtain ⟨ds, hds, rfl⟩ := exists_of_map_eq_ok hu
    refine ⟨⟨ds, hds, ?_⟩, ?_⟩
    · simp [Tree.withComments, Decl.core, Function.comp_def]
    · rw [← hlines]
      simp [Tree.withComments, List.flatMap_map]

/-! ### Taking a file apart -/

lemma endsStatement_getLast?_endStatements {size : Nat} {e : Bool} {L : List Token} :
    ∀ t ∈ (endStatements size e L).getLast?, t.kind.endsStatement = false := by
  induction L generalizing e with
  | nil =>
    unfold endStatements
    split <;> simp [Token.impliedSemi, Kind.endsStatement]
  | cons t L ih =>
    rw [endStatements]
    split
    · split
      · intro u hu
        rw [List.getLast?_cons] at hu
        cases hlast : (endStatements size false L).getLast? with
        | none =>
          rw [hlast] at hu
          cases hu
          rfl
        | some v =>
          rw [hlast] at hu
          cases hu
          exact ih v hlast
      · exact ih
    split
    · exact ih
    · intro u hu
      rw [List.getLast?_cons] at hu
      cases hlast : (endStatements size t.kind.endsStatement L).getLast? with
      | none =>
        rw [hlast] at hu
        cases hu
        change t.kind.endsStatement = false
        by_contra hends
        rw [Bool.not_eq_false] at hends
        rw [hends] at hlast
        exact endStatements_ne_nil (List.getLast?_eq_none_iff.1 hlast)
      | some v =>
        rw [hlast] at hu
        cases hu
        exact ih v hlast

lemma exists_clause {p : PackageClause} (h : c.packageClause = .ok (p, c'))
    (hlast : ∀ t ∈ c.ahead.getLast?, t.kind.endsStatement = false) : ∃ k m v : Token, c.ahead = k :: m :: v :: c'.ahead ∧
      k.kind = .packageWord ∧ m.kind = .ident ∧ v.kind = .semi ∧ m.stop = p.span.stop := by
  obtain ⟨k, d, m, d', hk, hm, hend, rfl⟩ := Cursor.packageClause_eq_ok_iff.1 h
  obtain ⟨hc, hkind, -⟩ := Cursor.expect_eq_ok_iff.1 hk
  obtain ⟨hc', hident, -⟩ := Cursor.expect_eq_ok_iff.1 hm
  rcases Cursor.endDeclaration_eq_ok hend with ⟨hnil, -⟩ | ⟨v, hv, hahead, -⟩
  · have hends := hlast m (by rw [hc, hc', hnil]; rfl)
    rw [hident] at hends
    cases hends
  · exact ⟨k, m, v, by rw [hc, hc', hahead], hkind, hident, hv, rfl⟩

/-- Where the head of a file ends: behind its imports, or behind its package clause. -/
def Tree.headEnd (tree : Tree) : Nat := tree.importsEnd?.getD tree.package.span.stop

/-- The parts of a file: its package clause, its imports and its declarations, with the statement ends between them. -/
structure Head (s : Text) (tree : Tree) where
  semis : List Token
  keyword : Token
  name : Token
  semi : Token
  imports : List Token
  rest : List Token
  tokens_eq : statementTokens s = semis ++ keyword :: name :: semi :: (imports ++ rest)
  semis_kind : ∃ n, semis.map (·.kind) = List.replicate n .semi
  keyword_kind : keyword.kind = .packageWord
  name_kind : name.kind = .ident
  semi_kind : semi.kind = .semi
  name_stop : name.stop = tree.package.span.stop
  read : ImportsRead imports tree.imports
  lines : importLines none (imports.map Token.lexeme) = (tree.imports.flatMap (·.specs)).map ImportSpec.line
  decls : ReadsAs (rest.map Token.lexeme) (tree.decls.map (·.kind.shape))

lemma ImportsRead.map {is : List ImportDecl} {f : ImportDecl → ImportDecl} (h : ImportsRead ts is)
    (hf : ∀ i, (f i).span = i.span ∧ (f i).specs = i.specs ∧ (f i).grouped = i.grouped) : ImportsRead ts (is.map f) where
  code := h.code
  empty hnil := h.empty (List.map_eq_nil_iff.1 hnil)
  last i hi := by
    rw [List.getLast?_map] at hi
    obtain ⟨j, hj, rfl⟩ := Option.map_eq_some_iff.1 hi
    rw [(hf j).1]
    exact h.last j hj
  groups i hi hg := by
    obtain ⟨j, hj, rfl⟩ := List.mem_map.1 hi
    rw [(hf j).2.2] at hg
    rw [(hf j).1, (hf j).2.1]
    exact h.groups j hj hg

/-- **A file that is read has a head.** -/
theorem exists_head (h : parse s = .ok tree) : Nonempty (Head s tree) := by
  obtain ⟨-, -, p, c, is, c', ds, hclause, himports, hdecls, rfl⟩ := parse_eq_ok h
  obtain ⟨n, ss, hss, hn⟩ := exists_semis ⟨0, statementTokens s⟩
  have hlast : ∀ t ∈ (statementTokens s).getLast?, t.kind.endsStatement = false := endsStatement_getLast?_endStatements
  have hends : ∀ {ts : List Token}, ts <:+ statementTokens s → ∀ t ∈ ts.getLast?, t.kind.endsStatement = false := by
    rintro ts ⟨us, hus⟩ t ht
    refine hlast t ?_
    rw [← hus, List.getLast?_append, Option.mem_def.1 ht]
    rfl
  have hpast : (Cursor.mk 0 (statementTokens s)).pastSemis.ahead <:+ statementTokens s := pastSemis_suffix
  obtain ⟨k, m, v, hahead, hk, hm, hv, hstop⟩ := exists_clause hclause (hends hpast)
  have hsuffix : c.ahead <:+ statementTokens s := by
    refine List.IsSuffix.trans ?_ hpast
    rw [hahead]
    exact ⟨[k, m, v], rfl⟩
  obtain ⟨ts, hts, hread⟩ := exists_importsRead himports (hends hsuffix)
  refine ⟨⟨ss, k, m, v, ts, c'.ahead, ?_, ⟨n, hn⟩, hk, hm, hv, hstop, ?_, ?_, ?_⟩⟩
  · rw [← hts, ← hahead]
    exact hss
  · exact hread.map fun i => ⟨rfl, rfl, rfl⟩
  · rw [Cursor.Lists.importLines_eq (imports_list himports) hts]
    simp [Tree.withComments, List.flatMap_map]
  · have := readsAs_of_decls hdecls
    simpa [Tree.withComments, Function.comp_def] using this

namespace Head

/-- The code of the head. -/
lemma isHeadCode {I : List Kind} (hd : Head s tree) (hI : IsImportCode I) (h : K ++ [.semi] = .semi :: I) :
    IsHeadCode (hd.semis.map (·.kind) ++ .packageWord :: .ident :: K) := by
  obtain ⟨n, hn⟩ := hd.semis_kind
  refine ⟨n, I, ?_, hI⟩
  rw [hn, List.append_assoc, List.cons_append, List.cons_append, h]

/-- **The head ends behind a token**, in front of a statement end. -/
theorem exists_last (hd : Head s tree) : ∃ A t l, statementTokens s = A ++ t :: l :: hd.rest ∧ t.stop = tree.headEnd ∧
    t.kind.endsStatement ∧ l.kind = .semi ∧ IsHeadCode ((A ++ [t]).map (·.kind)) := by
  rcases List.eq_nil_or_concat tree.imports with hnil | ⟨is, i, his⟩
  · refine ⟨hd.semis ++ [hd.keyword], hd.name, hd.semi, ?_, ?_, by rw [hd.name_kind]; rfl, hd.semi_kind, ?_⟩
    · rw [hd.tokens_eq, hd.read.empty hnil]
      simp
    · rw [Tree.headEnd, Tree.importsEnd?, hnil]
      exact hd.name_stop
    · have := hd.isHeadCode (K := []) .nil rfl
      simpa [hd.keyword_kind, hd.name_kind] using this
  · obtain ⟨us, t, l, hts, hstop, ht, hl⟩ := hd.read.last i (by rw [his, List.concat_eq_append, List.getLast?_concat]; rfl)
    refine ⟨hd.semis ++ hd.keyword :: hd.name :: hd.semi :: us, t, l, ?_, ?_, ht, hl, ?_⟩
    · rw [hd.tokens_eq, hts]
      simp
    · rw [Tree.headEnd, Tree.importsEnd?, his, List.concat_eq_append, List.getLast?_concat, hstop]
      rfl
    · have hcode := hd.read.code
      rw [hts] at hcode
      have := hd.isHeadCode (K := .semi :: (us ++ [t]).map (·.kind)) hcode (by simp [hl])
      simpa [hd.keyword_kind, hd.name_kind, hd.semi_kind] using this

/-- What a group of imports may be replaced by, and what stands behind it. -/
lemma exists_group {g : ImportDecl} (hd : Head s tree) (hg : g ∈ tree.imports) (hgrouped : g.grouped) :
    ∃ (A : List Token) (w o : Token) (G C : List Token) (l : Token),
      statementTokens s = A ++ w :: o :: (G ++ (C ++ l :: hd.rest)) ∧ w.start = g.span.start ∧ w.kind = .importWord ∧
      o.kind = .lparen ∧ (∀ t ∈ G.getLast?, t.stop = g.span.stop) ∧ l.kind = .semi ∧ GroupRead G g.specs ∧
      ∀ L, IsGroupCode L → IsHeadCode (A.map (·.kind) ++ .importWord :: .lparen :: (L ++ C.map (·.kind))) := by
  obtain ⟨us, w, o, G, vs, hts, hstart, hw, ho, hstop, hread, hcode⟩ := hd.read.groups g hg hgrouped
  obtain ⟨C, l, rfl, hl⟩ : ∃ C l, vs = C ++ [l] ∧ l.kind = .semi := by
    obtain ⟨K, hK⟩ := (hcode _ .close).exists_concat (by simp)
    rcases List.eq_nil_or_concat vs with rfl | ⟨C, l, rfl⟩
    · have := congrArg List.getLast? hK
      simp [List.getLast?_append, List.getLast?_cons] at this
    · have := congrArg List.getLast? hK
      refine ⟨C, l, List.concat_eq_append, ?_⟩
      simpa [List.getLast?_append, List.getLast?_cons] using this
  refine ⟨hd.semis ++ hd.keyword :: hd.name :: hd.semi :: us, w, o, G, C, l, ?_, hstart, hw, ho, hstop, hl, hread, fun L hL => ?_⟩
  · rw [hd.tokens_eq, hts]
    simp
  · have := hd.isHeadCode (K := .semi :: (us.map (·.kind) ++ .importWord :: .lparen :: (L ++ C.map (·.kind)))) (hcode L hL)
      (by simp [hl])
    simpa [hd.keyword_kind, hd.name_kind, hd.semi_kind] using this

end Head

/-! ### Heads among lexemes -/

/-- Whether lexemes are those of a package clause and imports, up to the last token. -/
structure IsHead (L : List Lexeme) : Prop where
  ending : endingBehind false L = true
  code : IsHeadCode ((statementPart false L).map Lexeme.kind)

namespace IsHead

/-- A head may gain an import behind its last token. -/
lemma append_import {k : Kind} (h : IsHead L) (hk : k.isPath) (hR : (statementPart true R).map Lexeme.kind = [.semi, .importWord, k])
    (hend : endingBehind true R = true) : IsHead (L ++ R) where
  ending := by rw [endingBehind_append, h.ending, hend]
  code := by
    obtain ⟨n, I, hI, hcode⟩ := h.code
    refine ⟨n, I ++ [.importWord, k, .semi], ?_, hcode.append (.one (.plain hk) .nil)⟩
    rw [statementPart_append, h.ending, List.map_append, hR]
    have := congrArg (· ++ [Kind.importWord, k, .semi]) hI
    simpa using this

end IsHead

namespace Head

/-- The tokens of a file, cut behind its head. -/
structure Cut (hd : Head s tree) where
  front : List Token
  last : Token
  behind : List Token
  /-- The head with its statement ends. -/
  statements : List Token
  semi : Token
  tokens_eq : tokens s = front ++ last :: behind
  stop : last.stop = tree.headEnd
  ends : last.kind.endsStatement
  significant : last.kind.isSignificant
  map_statements : statements.map Token.lexeme = statementPart false ((front ++ [last]).map Token.lexeme)
  statementTokens_eq : statementTokens s = statements ++ semi :: hd.rest
  semi_kind : semi.kind = .semi
  code : IsHeadCode (statements.map (·.kind))
  map_behind : statementLexemes true (behind.map Token.lexeme) = semi.lexeme :: hd.rest.map Token.lexeme

theorem exists_cut (hd : Head s tree) : Nonempty hd.Cut := by
  obtain ⟨A, t, l, hall, hstop, ht, hl, hcode⟩ := hd.exists_last
  have hne : t.kind ≠ .semi := by
    intro hk
    rw [hk] at ht
    cases ht
  obtain ⟨F, B, htokens, hsig, hpart, hrest⟩ := endStatements_eq_append (show endStatements s.width false _ = _ from hall) hne
  refine ⟨⟨F, t, B, A ++ [t], l, htokens, hstop, ht, hsig, hpart, by rw [hall]; simp, hl, hcode, ?_⟩⟩
  have hbehind := @map_lexeme_endStatements t.kind.endsStatement B s.width
  rw [← hrest, ht, List.map_cons] at hbehind
  exact hbehind.symm

namespace Cut

variable {hd : Head s tree}

/-- The lexemes of the head. -/
def lexemes (k : hd.Cut) : List Lexeme := (k.front ++ [k.last]).map Token.lexeme

lemma endingBehind_lexemes (k : hd.Cut) : endingBehind false k.lexemes = true := by
  rw [lexemes, List.map_append, endingBehind_append, List.map_singleton,
    endingBehind_cons_of_isSignificant (l := k.last.lexeme) k.significant]
  exact k.ends

lemma isHead (k : hd.Cut) : IsHead k.lexemes where
  ending := k.endingBehind_lexemes
  code := by
    rw [lexemes, ← k.map_statements, List.map_map]
    exact k.code

lemma lex_eq (k : hd.Cut) : lex s = k.lexemes ++ k.behind.map Token.lexeme := by
  rw [← map_lexeme_tokens, k.tokens_eq, lexemes]
  simp

/-- A statement token of the head stands among its tokens. -/
lemma exists_split (k : hd.Cut) {D₁ D₂ : List Token} (h : k.statements = D₁ ++ u :: D₂) (hu : u.kind ≠ .semi) :
    ∃ F₁ F₂ : List Token, k.front ++ [k.last] = F₁ ++ u :: F₂ ∧ u.kind.isSignificant ∧
      (D₁ ++ [u]).map Token.lexeme = statementPart false ((F₁ ++ [u]).map Token.lexeme) ∧
      D₂.map Token.lexeme = statementPart u.kind.endsStatement (F₂.map Token.lexeme) := by
  have hall : statementTokens s = D₁ ++ u :: (D₂ ++ k.semi :: hd.rest) := by
    rw [k.statementTokens_eq, h]
    simp
  obtain ⟨F₁, L₂, htokens, hsig, hpart, -⟩ := endStatements_eq_append (show endStatements s.width false _ = _ from hall) hu
  have hend : endingBehind false ((F₁ ++ [u]).map Token.lexeme) = u.kind.endsStatement := by
    rw [List.map_append, endingBehind_append, List.map_singleton, endingBehind_cons_of_isSignificant (l := u.lexeme) hsig]
    rfl
  have heq : (k.front ++ [k.last]) ++ k.behind = (F₁ ++ [u]) ++ L₂ := by
    rw [List.append_assoc, List.append_assoc, List.singleton_append, List.singleton_append, ← k.tokens_eq, htokens]
  have hstatements := k.map_statements
  have happend : ∀ L M : List Token, statementPart false ((L ++ M).map Token.lexeme) =
      statementPart false (L.map Token.lexeme) ++
        statementPart (Source.endingBehind false (L.map Token.lexeme)) (M.map Token.lexeme) := fun L M => by
    rw [List.map_append, statementPart_append]
  obtain ⟨F₂, hF₂⟩ : ∃ F₂, k.front ++ [k.last] = (F₁ ++ [u]) ++ F₂ := by
    rcases List.append_eq_append_iff.1 heq with ⟨Y, hY, -⟩ | ⟨Y, hY, -⟩
    · -- the token does not stand behind the head
      rcases List.eq_nil_or_concat Y with rfl | ⟨Y, v, rfl⟩
      · exact ⟨[], by simpa using hY.symm⟩
      · rw [List.concat_eq_append, ← List.append_assoc] at hY
        obtain rfl : u = v := by
          have := congrArg List.getLast? hY
          rwa [List.getLast?_concat, List.getLast?_concat, Option.some.injEq] at this
        have hlength := congrArg List.length hpart
        rw [hY, happend (k.front ++ [k.last] ++ Y), happend (k.front ++ [k.last]), ← hstatements, h, List.map_singleton, statementPart_cons_of_isSignificant (l := u.lexeme) hsig]
          at hlength
        simp only [List.map_append, List.length_append, List.length_map, List.length_cons, List.length_nil] at hlength
        omega
    · exact ⟨Y, hY⟩
  refine ⟨F₁, F₂, by rw [hF₂]; simp, hsig, hpart, ?_⟩
  rw [h, hF₂, happend (F₁ ++ [u]), ← hpart, hend, ← List.singleton_append (x := u), ← List.append_assoc,
    List.map_append] at hstatements
  exact List.append_cancel_left hstatements

end Cut

end Head

end RuleWeaver.Source
