import RuleWeaver.Proofs.Document.GrowingMaps
import RuleWeaver.Proofs.Source.Outlines
import RuleWeaver.Proofs.Source.Preamble
import RuleWeaver.Proofs.Updates

/-!
# The lexemes of an updated registry

Merging puts an import behind code of the preamble, entries at the end of the rule map and functions behind everything else.
Where the rule map is code (`IsPlaced`), its lexemes are those of the old file with those of the new pieces between them
(`exists_merge`).
-/

namespace RuleWeaver

open Source Text

variable {existing : Text} {tree : Tree} {m : MapBraces} {additions : Additions} {line : NewImport} {p y : Text}
  {entries : List (Text × EntryValue)} {body J K J' : List Lexeme} {stack : List Kind}

/-! ### Where the pieces go -/

/-- Whether the places where a registry gains code are code: the brace that opens its rule map is a token, and the offset where
an import goes is the one behind a token. -/
structure IsPlaced (existing : Text) (tree : Tree) (m : MapBraces) : Prop where
  opening : ∃ t ∈ tokens existing, t.kind = .lbrace ∧ t.start = m.opening
  imports : ∃ t ∈ tokens existing, t.kind.isSignificant ∧ t.stop = (importEdit existing tree ⟨none, "regexp"⟩).span.start

lemma behindParen_le {i : ImportDecl} (h : i.IsIn existing) : Document.behindParen existing i.span ≤ i.span.stop := by
  unfold Document.behindParen
  split
  · next before rest e =>
    have hpart := Text.cut?_eq_some e
    obtain ⟨u, v, hs, hu⟩ := h.start
    have hstop := h.stop
    rw [hs] at hstop
    by_cases hle : u.width ≤ i.span.stop
    · obtain ⟨w, t, rfl, hw⟩ := hstop.cut hle
      have hslice : Text.slice existing i.span.start i.span.stop = w := by
        rw [hs, ← hu, hw]
        exact Text.slice_width_append
      rw [hslice] at hpart
      have hone : Text.width ("(".toList) = 1 := rfl
      rw [hw, ← hu, hpart, Text.width_append, Text.width_append, hone]
      omega
    · have hnil : Text.slice existing i.span.start i.span.stop = [] := by
        rw [hs, ← hu, Text.slice, Text.dropBytes_width_append, Nat.sub_eq_zero_of_le (Nat.le_of_not_le hle)]
        cases v <;> rfl
      rw [hnil] at hpart
      simp at hpart
  · exact Nat.le_refl _

/-- An import goes behind a token of the preamble. -/
lemma importEdit_endsInPreamble (htree : parse existing = .ok tree)
    (h : ∃ t ∈ tokens existing, t.kind.isSignificant ∧ t.stop = (importEdit existing tree line).span.start) :
    EndsInPreamble existing (importEdit existing tree line).span.start := by
  obtain ⟨hpackage, himports⟩ := parse_endsInPreamble htree
  obtain ⟨t, ht, hsig, hstop⟩ := h
  suffices hle : ∃ n, EndsInPreamble existing n ∧ (importEdit existing tree line).span.start ≤ n by
    obtain ⟨n, hn, hle⟩ := hle
    rw [← hstop] at hle ⊢
    exact hn.of_le ht hsig hle
  unfold importEdit
  dsimp only
  split
  · next group e =>
    have hmem : group ∈ tree.imports := List.mem_reverse.1 (List.mem_of_find?_eq_some e)
    obtain ⟨hgroup, hspecs⟩ := himports group hmem
    dsimp only
    split
    · next spec e' =>
      have hgrouped : group.grouped = true := List.find?_some e
      exact ⟨_, hspecs hgrouped spec (List.mem_of_getLast? e'), Nat.le_refl _⟩
    · exact ⟨_, hgroup, behindParen_le ((parse_isBoundary htree).2 group hmem)⟩
  · split
    · next stop e =>
      obtain ⟨i, hi, rfl⟩ := Option.map_eq_some_iff.1 e
      exact ⟨_, (himports i (List.mem_of_getLast? hi)).1, Nat.le_refl _⟩
    · exact ⟨_, hpackage, Nat.le_refl _⟩

/-! ### The pieces -/

/-- Classes of the lexemes of an import that is added. -/
def Source.Kind.isImportPiece : Kind → Bool
  | newline | blank | importWord | string => true
  | _ => false

/-- The lexemes of an import that is added. -/
lemma exists_lex_importText (h : p ∈ importTexts ⟨none, line.path⟩) :
    ∃ u L, p = '\n' :: u ∧ (∀ l ∈ L, l.kind.isImportPiece) ∧ ∀ y, lex (u ++ y) = L ++ lex y := by
  have hrender : NewImport.render ⟨none, line.path⟩ = quote line.path := rfl
  have hword : lex "import ".toList = [⟨.importWord, "import"⟩, ⟨.blank, [' ']⟩] := by decide +kernel
  have himport : ∀ y, lex ("import ".toList ++ (quote line.path ++ y)) =
      [⟨.importWord, "import"⟩, ⟨.blank, [' ']⟩, ⟨.string, quote line.path⟩] ++ lex y := by
    intro y
    rw [lex_append_of_eq hword (by rfl) (by rfl), lex_quote_append]
    rfl
  simp only [importTexts, List.mem_cons, List.not_mem_nil, or_false, hrender] at h
  rcases h with rfl | rfl | rfl
  · refine ⟨'\t' :: quote line.path, [⟨.blank, ['\t']⟩, ⟨.string, quote line.path⟩], rfl, ?_, fun y => ?_⟩
    · simp [Kind.isImportPiece]
    · rw [List.cons_append, lex_blank rfl (by rfl), lex_quote_append]
      rfl
  · refine ⟨"import ".toList ++ quote line.path, [⟨.importWord, "import"⟩, ⟨.blank, [' ']⟩, ⟨.string, quote line.path⟩],
      rfl, ?_, fun y => ?_⟩
    · simp [Kind.isImportPiece]
    · rw [List.append_assoc]
      exact himport y
  · refine ⟨'\n' :: ("import ".toList ++ quote line.path),
      [⟨.newline, ['\n']⟩, ⟨.importWord, "import"⟩, ⟨.blank, [' ']⟩, ⟨.string, quote line.path⟩], rfl, ?_, fun y => ?_⟩
    · simp [Kind.isImportPiece]
    · rw [List.cons_append, lex_newline, List.append_assoc, himport y]
      rfl

/-- What lexemes between the braces of a map become when it gains entries. -/
inductive Growth (entries : List (Text × EntryValue)) : List Lexeme → List Lexeme → Prop
  | none (h : entries = []) (J : List Lexeme) : Growth entries J J
  | some {J K J' : List Lexeme} (htrim : Trimmed J K) (hcomma : GainsComma K J') :
      Growth entries J (J' ++ ⟨.newline, ['\n']⟩ :: entries.flatMap GrowingMap.entryLexemes)

/-- The lexemes of a registry and of what it becomes when it is merged with additions. -/
structure Merge (existing merged : Text) (m : MapBraces) (additions : Additions) where
  /-- What stands in front of the place where an import goes. -/
  front : List Lexeme
  imports : List Lexeme
  /-- What stands between that place and the brace that opens the rule map. -/
  between : List Lexeme
  body : List Lexeme
  grown : List Lexeme
  behind : List Lexeme
  appended : Text
  lex_existing : lex existing = front ++ (between ++ ⟨.lbrace, ['{']⟩ :: (body ++ ⟨.rbrace, ['}']⟩ :: behind))
  lex_merged : lex merged =
    front ++ (imports ++ (between ++ ⟨.lbrace, ['{']⟩ :: (grown ++ ⟨.rbrace, ['}']⟩ :: (behind ++ lex appended))))
  opening : m.opening = (joined (front ++ between)).width
  preamble : ∀ l ∈ front, l.kind.isSignificant → l.kind.isPreamble
  pieces : ∀ l ∈ imports, l.kind.isImportPiece
  balanced : isBalanced [] body
  growth : Growth additions.newEntries body grown
  appendix : Appendix (functionTexts additions.functions) appended

/-- Where a rule map that is code stands among the lexemes of a registry. -/
structure RuleMapCode (existing : Text) (tree : Tree) (m : MapBraces) where
  /-- What stands in front of the place where an import goes. -/
  front : List Lexeme
  /-- What stands between that place and the brace that opens the rule map. -/
  between : List Lexeme
  body : List Lexeme
  behind : List Lexeme
  lexemes : lex existing = front ++ (between ++ ⟨.lbrace, ['{']⟩ :: (body ++ ⟨.rbrace, ['}']⟩ :: behind))
  between_ne_nil : between ≠ []
  opening : m.opening = (joined (front ++ between)).width
  closing : m.closing = m.opening + 1 + (joined body).width
  spot : (importEdit existing tree ⟨none, "regexp"⟩).span.start = (joined front).width
  preamble : ∀ l ∈ front, l.kind.isSignificant → l.kind.isPreamble
  balanced : isBalanced [] body

lemma exists_ruleMapCode (htree : parse existing = .ok tree) (hm : Detection.findMap? Detection.ruleMapHead existing = some m)
    (hp : IsPlaced existing tree m) : Nonempty (RuleMapCode existing tree m) := by
  obtain ⟨hwhole, hbalanced, -⟩ := parse_eq_ok htree
  obtain ⟨L₁, t, L₂, htokens, hstop, -, hall, hnext⟩ := importEdit_endsInPreamble htree hp.imports
  obtain ⟨b, hb, hkind, hopening⟩ := hp.opening
  have hfront : ∀ l ∈ (L₁ ++ [t]).map Token.lexeme, l.kind.isSignificant → l.kind.isPreamble := by
    intro l hl
    obtain ⟨u, hu, rfl⟩ := List.mem_map.1 hl
    exact hall u hu
  -- the brace stands behind the place of the import
  have hnot : b ∉ L₁ ++ [t] := by
    intro hmem
    have := hall b hmem (by rw [hkind]; rfl)
    rw [hkind] at this
    cases this
  obtain ⟨M, R, rfl⟩ : ∃ M R, L₂ = M ++ b :: R := by
    rw [htokens, ← List.singleton_append, ← List.append_assoc, List.mem_append] at hb
    exact List.append_of_mem (hb.resolve_left hnot)
  have hM : M ≠ [] := by
    rintro rfl
    exact hnext b rfl hkind
  have htext : b.text = ['{'] :=
    text_of_bracket (l := b.lexeme) (lexeme_mem_lex (by rw [htokens]; simp)) (by rw [Token.lexeme_kind, hkind]; rfl)
  have hlexeme : b.lexeme = ⟨.lbrace, ['{']⟩ := by rw [Token.lexeme, hkind, htext]
  have htokens' : tokens existing = (L₁ ++ [t] ++ M) ++ b :: R := by rw [htokens]; simp
  have hlex : lex existing = ((L₁ ++ [t]).map Token.lexeme ++ M.map Token.lexeme) ++ ⟨.lbrace, ['{']⟩ :: R.map Token.lexeme := by
    rw [← map_lexeme_tokens, htokens', List.map_append, List.map_append, List.map_cons, hlexeme]
  have hwidth : m.opening = (joined ((L₁ ++ [t]).map Token.lexeme ++ M.map Token.lexeme)).width := by
    rw [← hopening, start_of_tokens_eq htokens', List.map_append]
  -- the bracket that closes it
  have hclosing := Detection.closingOffset_of_findMap? hm
  have hdrop : lex (Text.dropBytes m.opening existing) = ⟨.lbrace, ['{']⟩ :: R.map Token.lexeme := by
    rw [← hopening, lex_dropBytes_start htokens', hlexeme]
  rw [closingOffset, hdrop, place_cons] at hclosing
  replace hclosing : closing existing m.opening 1 (place (m.opening + 1) (R.map Token.lexeme)) = .ok m.closing := hclosing
  rw [hlex] at hbalanced
  obtain ⟨stack, hstack⟩ := exists_isBalanced_right hbalanced
  have hopen : isBalanced ([] ++ .lbrace :: stack) (R.map Token.lexeme) := hstack
  obtain ⟨body, l, behind, hR, hcloser, hbody, -⟩ := exists_closed hopen
  have hl : l.kind = .rbrace := (Option.some.inj hcloser).symm
  have hstray : ∀ x ∈ body, x.kind ≠ .stray := fun x hx => kind_ne_stray (isWhole_iff.1 hwhole x (by rw [hlex, hR]; simp [hx]))
  have hcount : closing existing m.opening (([] : List Kind).length + 1) (place (m.opening + 1) (body ++ l :: behind)) =
      .ok (m.opening + 1 + (joined body).width) := closing_append hbody hstray (by rw [hl]; rfl)
  have hclose : m.closing = m.opening + 1 + (joined body).width := by
    rw [hR] at hclosing
    exact Except.ok.inj (hclosing.symm.trans hcount)
  have hrtext : l.text = ['}'] := by
    refine text_of_bracket (s := existing) ?_ (by rw [hl]; rfl)
    rw [hlex, hR]
    simp
  obtain ⟨k, s⟩ := l
  obtain rfl : k = .rbrace := hl
  obtain rfl : s = ['}'] := hrtext
  refine ⟨⟨(L₁ ++ [t]).map Token.lexeme, M.map Token.lexeme, body, behind, ?_, by simpa using hM, hwidth, hclose, ?_, hfront, hbody⟩⟩
  · rw [hlex, hR, List.append_assoc]
  · rw [← hstop]
    exact stop_of_tokens_eq htokens

lemma Appendix.eq_nil_or {fs : List Text} (h : Appendix fs p) : p = [] ∨ ∃ u, p = '\n' :: u := by
  obtain ⟨lead, hlead, rfl⟩ := h
  rcases hlead with rfl | ⟨rfl, -⟩
  · rcases fs with _ | ⟨f, fs⟩
    · exact .inl rfl
    · exact .inr ⟨_, rfl⟩
  · exact .inr ⟨_, rfl⟩

/-- What is put at the end leaves what stands in front of it as it is. -/
lemma Appendix.lex_append {fs : List Text} (h : Appendix fs p) (hy : isWhole y) : lex (y ++ p) = lex y ++ lex p := by
  rcases h.eq_nil_or with rfl | ⟨u, rfl⟩
  · simp
  · rw [lex_append_newline hy, lex_newline]

lemma Additions.isEntry_of_mem (h : ∀ b ∈ additions.bindings, isFunctionName b.function) :
    ∀ e ∈ additions.newEntries, GrowingMap.IsEntry e := by
  intro e he
  obtain ⟨b, hb, rfl⟩ := List.mem_map.1 he
  exact h b hb

namespace RuleMapCode

variable (k : RuleMapCode existing tree m) {imports ends : List Edit}

lemma existing_eq : existing =
    joined k.front ++ (joined k.between ++ (('{' :: (joined k.body ++ ['}'])) ++ joined k.behind)) := by
  conv_lhs => rw [← joined_lex (s := existing), k.lexemes]
  simp

lemma isLexed_front (hw : isWhole existing) : IsLexed k.front := (isLexed_of_lex k.lexemes hw).left

lemma isLexed_behindFront (hw : isWhole existing) :
    IsLexed (k.between ++ ⟨.lbrace, ['{']⟩ :: (k.body ++ ⟨.rbrace, ['}']⟩ :: k.behind)) :=
  (isLexed_of_lex k.lexemes hw).right

lemma isLexed_behindOpening (hw : isWhole existing) : IsLexed (k.body ++ ⟨.rbrace, ['}']⟩ :: k.behind) :=
  IsLexed.right (A := [⟨.lbrace, ['{']⟩]) (k.isLexed_behindFront hw).right

lemma isLexed_behind (hw : isWhole existing) : IsLexed k.behind :=
  IsLexed.right (A := [⟨.rbrace, ['}']⟩]) (k.isLexed_behindOpening hw).right

/-- What is put at the end stands behind the lexemes there. -/
lemma lex_behind_append {fs : List Text} (hw : isWhole existing) (hp : Appendix fs p) :
    lex (joined k.behind ++ p) = k.behind ++ lex p := by
  rw [hp.lex_append (k.isLexed_behind hw).isWhole, (k.isLexed_behind hw).1]

lemma areAt_imports (htree : parse existing = .ok tree)
    (himports : imports = [] ∨ imports = [importEdit existing tree ⟨none, "regexp"⟩]) :
    Document.AreAt (joined k.front).width imports := by
  rcases himports with rfl | rfl
  · simp [Document.AreAt]
  · intro e he
    rw [List.mem_singleton.1 he, ← k.spot]
    exact congrArg (Span.mk _) (importEdit_isInsertion htree).stop

/-- The lexemes up to the brace of the rule map, with an import if one is added. -/
lemma exists_lex_front (hw : isWhole existing) (himports : imports = [] ∨ imports = [importEdit existing tree line])
    (hline : line.name = none) :
    ∃ L, (∀ l ∈ L, l.kind.isImportPiece) ∧ ∀ w, lex (joined k.front ++ ((pieces imports).flatten ++
      (joined k.between ++ '{' :: w))) = k.front ++ (L ++ (k.between ++ ⟨.lbrace, ['{']⟩ :: lex w)) := by
  have hfront := k.isLexed_front hw
  have hbetween := (k.isLexed_behindFront hw).left
  rcases himports with rfl | rfl
  · refine ⟨[], by simp, fun w => ?_⟩
    have hsplit : lex existing = (k.front ++ k.between) ++ ⟨.lbrace, ['{']⟩ :: (k.body ++ ⟨.rbrace, ['}']⟩ :: k.behind) := by
      rw [k.lexemes, List.append_assoc]
    have h := lex_joined_append (d := '{') (z := w) (by decide) hsplit rfl
      fun l hl => (List.mem_append.1 hl).elim (hfront.2 l) (hbetween.2 l)
    rw [lex_lbrace] at h
    simpa using h
  · have hmem : (importEdit existing tree line).node.render ∈ importTexts ⟨none, line.path⟩ := by
      have : line = ⟨none, line.path⟩ := by rw [← hline]
      rw [← this]
      exact importEdit_mem
    obtain ⟨u, L, hu, hL, hlexu⟩ := exists_lex_importText hmem
    refine ⟨⟨.newline, ['\n']⟩ :: L, ?_, fun w => ?_⟩
    · intro l hl
      rcases List.mem_cons.1 hl with rfl | hl
      · rfl
      · exact hL l hl
    · have h := lex_joined_append (d := '{') (z := w) (by decide) (k.isLexed_behindFront hw).1 rfl hbetween.2
      rw [pieces, List.map_singleton, List.flatten_singleton, hu, List.cons_append, hfront.lex_append_newline, hlexu, h, lex_lbrace]
      simp

/-! ### The edit of the rule map -/

lemma body_eq : m.body existing = joined k.body := by
  have hbrace : existing = joined (k.front ++ k.between) ++ '{' :: (joined k.body ++ '}' :: joined k.behind) :=
    k.existing_eq.trans (by simp)
  calc m.body existing
      = MapBraces.body ⟨(joined (k.front ++ k.between)).width, (joined (k.front ++ k.between)).width + 1 + (joined k.body).width⟩
          (joined (k.front ++ k.between) ++ '{' :: (joined k.body ++ '}' :: joined k.behind)) := by
        rw [← k.opening, ← k.closing, ← hbrace]
    _ = joined k.body := body_enclosed

lemma growEdit_span : (growEdit m existing entries).span = ⟨(joined k.front ++ joined k.between).width,
    (joined k.front ++ joined k.between ++ '{' :: (joined k.body ++ ['}'])).width⟩ := by
  have h₁ : ('{' : Char).utf8Size = 1 := rfl
  have h₂ : ('}' : Char).utf8Size = 1 := rfl
  simp only [growEdit, k.closing, k.opening, joined_append, Text.width_append, Text.width_cons, Text.width_nil, h₁, h₂,
    Span.mk.injEq, true_and]
  omega

lemma growEdit_render : (growEdit m existing entries).node.render = GrowingMap.render ⟨joined k.body, entries⟩ := by
  rw [growEdit, k.body_eq]
  rfl

/-- The merged registry when the rule map gains entries. -/
lemma render_growing (hat : Document.AreAt (joined k.front).width imports) (hends : ∀ e ∈ ends, e.IsAtEnd existing) :
    Document.render ⟨existing, growEdit m existing entries :: (imports ++ ends)⟩ =
      joined k.front ++ ((pieces imports).flatten ++ (joined k.between ++
        (GrowingMap.render ⟨joined k.body, entries⟩ ++ (joined k.behind ++ (pieces ends).flatten)))) := by
  rw [← k.growEdit_render]
  have hbetween : joined k.between ≠ [] := by
    obtain ⟨l, between, e⟩ := List.exists_cons_of_ne_nil k.between_ne_nil
    have htext : l.text ≠ [] := text_ne_nil (s := existing) (by rw [k.lexemes, e]; simp)
    simp [e, htext]
  exact Document.render_at_replacement k.existing_eq hbetween hat k.growEdit_span hends

end RuleMapCode

/-- **What merging makes of the lexemes of a registry.** -/
theorem exists_merge (htree : parse existing = .ok tree) (hm : Detection.findMap? Detection.ruleMapHead existing = some m)
    (hp : IsPlaced existing tree m) (hentries : ∀ b ∈ additions.bindings, isFunctionName b.function) :
    Nonempty (Merge existing (mergeRegistry existing tree m additions) m additions) := by
  obtain ⟨hw, -⟩ := parse_eq_ok htree
  obtain ⟨k⟩ := exists_ruleMapCode htree hm hp
  obtain ⟨imports, ends, hrender, himports, hends, happendix⟩ := mergeRegistry_eq existing tree m additions
  obtain ⟨L, hL, hlexfront⟩ := k.exists_lex_front hw himports rfl
  have hat := k.areAt_imports htree himports
  by_cases hb : additions.bindings = []
  · -- nothing goes into the rule map
    refine ⟨⟨k.front, L, k.between, k.body, k.body, k.behind, (pieces ends).flatten, k.lexemes, ?_, k.opening, k.preamble, hL,
      k.balanced, .none (by simp [Additions.newEntries, hb]) k.body, happendix⟩⟩
    have hmerged : mergeRegistry existing tree m additions = joined k.front ++ ((pieces imports).flatten ++ (joined k.between ++
        '{' :: (joined k.body ++ '}' :: (joined k.behind ++ (pieces ends).flatten)))) := by
      rw [hrender, hb]
      refine (Document.render_at k.existing_eq hat hends).trans ?_
      simp
    have hbody := k.isLexed_behindOpening hw
    have h := lex_joined_append (d := '}') (z := joined k.behind ++ (pieces ends).flatten) (by decide) hbody.1 rfl hbody.left.2
    rw [hmerged, hlexfront, h, lex_rbrace, k.lex_behind_append hw happendix]
  · -- the rule map gains entries
    have hbody := (k.isLexed_behindOpening hw).left
    obtain ⟨hwhole, K, htrim, hcomma⟩ := lex_renderBody hbody.isWhole
    rw [hbody.1] at htrim
    refine ⟨⟨k.front, L, k.between, k.body, _, k.behind, (pieces ends).flatten, k.lexemes, ?_, k.opening, k.preamble, hL,
      k.balanced, .some htrim hcomma, happendix⟩⟩
    obtain ⟨w, hw'⟩ : ∃ w, GrowingMap.render ⟨joined k.body, additions.newEntries⟩ ++ (joined k.behind ++ (pieces ends).flatten) =
        '{' :: w := ⟨_, rfl⟩
    have hlexw := lex_growingMap (z := joined k.behind ++ (pieces ends).flatten) hwhole
      (GrowingMap.arePlain (Additions.isEntry_of_mem hentries))
    rw [hw', lex_lbrace, k.lex_behind_append hw happendix] at hlexw
    rw [hrender, if_neg (by simpa using hb), List.singleton_append, k.render_growing hat hends, hw', hlexfront, hlexw]
    simp

end RuleWeaver
