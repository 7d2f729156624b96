import RuleWeaver.Document.Node
import RuleWeaver.Proofs.Source.Literals
import RuleWeaver.Proofs.Source.Names
import RuleWeaver.Proofs.Source.Readers
import RuleWeaver.Proofs.Source.StatementEnds

/-!
# The import section

What is read at the beginning of a file: names come from tokens of the file (`parse_names`), and a group of imports that is
written is read back (`importsOf_group`).
-/

namespace RuleWeaver.Source

open Text (quote unquote run)

/-- Whether a text is a name that no reserved word is. -/
def IsName (s : Text) : Prop := lex s = [⟨.ident, s⟩]

/-- Whether a text is a name or a dot, which can stand in front of an import path. -/
def IsImportName (s : Text) : Prop := ∃ k, (k = .ident ∨ k = .dot) ∧ lex s = [⟨k, s⟩]

/-! ### Readers go forward -/

section Suffix

variable {c c' : Cursor} {ts : List Token} {α : Type} {goal : Goal}

lemma pastSemis_suffix : c.pastSemis.ahead <:+ c.ahead := List.dropWhile_suffix _

lemma advance_suffix : c.advance.ahead <:+ c.ahead := by
  unfold Cursor.advance
  split
  · exact List.suffix_rfl
  · next t ts h =>
    rw [h]
    exact List.suffix_cons t ts

lemma expect_suffix {kind : Kind} {t : Token} (h : c.expect kind goal = .ok (t, c')) : c'.ahead <:+ c.ahead := by
  rw [(Cursor.expect_eq_ok_iff.1 h).1]
  exact List.suffix_cons _ _

lemma endDeclaration_suffix (h : c.endDeclaration = .ok c') : c'.ahead <:+ c.ahead := by
  unfold Cursor.endDeclaration at h
  split at h
  · cases h
    exact List.suffix_rfl
  · next t ts e =>
    split at h
    · cases h
      rw [e]
      exact List.suffix_cons t ts
    · exact absurd h Cursor.unmet_ne_ok

/-- Whether what holds of a cursor holds of it past statement ends and parentheses. -/
structure Advances (Q : Cursor → Prop) : Prop where
  semis : ∀ d, Q d → Q d.pastSemis
  parens : ∀ d, d.kind? = some .lparen ∨ d.kind? = some .rparen → Q d → Q d.advance

lemma advances_suffix : Advances (·.ahead <:+ ts) where
  semis _ := pastSemis_suffix.trans
  parens _ _ := advance_suffix.trans

/-- What holds of single items holds of all items of a group. -/
lemma untilParen_forall {item : ItemReader α} {P : α → Prop} {Q : Cursor → Prop} {as : List α} (hQ : Advances Q)
    (hitem : ∀ d a d', Q d → item.read d = .ok (a, d') → P a ∧ Q d') (hc : Q c) (h : item.untilParen goal c = .ok (as, c')) :
    (∀ a ∈ as, P a) ∧ Q c' := by
  fun_induction item.untilParen goal c generalizing as with
  | case1 c => exact absurd h Cursor.unmet_ne_ok
  | case2 c hk =>
    cases h
    exact ⟨by simp, hQ.parens _ (.inr hk) (hQ.semis _ hc)⟩
  | case3 => cases h
  | case4 c k hk hk' a d e hlt ih =>
    obtain ⟨ha, hd⟩ := hitem _ _ _ (hQ.semis _ hc) e
    obtain ⟨r, e', h⟩ := exists_of_map_eq_ok h
    cases h
    obtain ⟨h₁, h₂⟩ := ih hd e'
    exact ⟨by simpa using ⟨ha, h₁⟩, h₂⟩

lemma oneOrGroup_forall {one many : ItemReader α} {P : α → Prop} {Q : Cursor → Prop} {r : List α × Bool} (hQ : Advances Q)
    (hone : ∀ d a d', Q d → one.read d = .ok (a, d') → P a ∧ Q d')
    (hmany : ∀ d a d', Q d → many.read d = .ok (a, d') → P a ∧ Q d')
    (hc : Q c) (h : oneOrGroup one many goal c = .ok (r, c')) : (∀ a ∈ r.1, P a) ∧ Q c' := by
  unfold oneOrGroup at h
  split at h
  · next hk =>
    obtain ⟨p, e, h⟩ := exists_of_map_eq_ok h
    cases h
    exact untilParen_forall hQ hmany (hQ.parens _ (.inl hk) hc) e
  · obtain ⟨p, e, h⟩ := exists_of_map_eq_ok h
    cases h
    obtain ⟨h₁, h₂⟩ := hone _ _ _ hc e
    exact ⟨by simpa using h₁, h₂⟩

end Suffix

/-! ### Names that are read -/

section Names

variable {c c' : Cursor} {ts : List Token}

/-- Whether every name and dot among tokens is one by itself. -/
def HoldsNames (ts : List Token) : Prop := ∀ t ∈ ts, t.kind = .ident ∨ t.kind = .dot → lex t.text = [t.lexeme]

lemma HoldsNames.isName {t : Token} (h : HoldsNames ts) (ht : t ∈ ts) (hk : t.kind = .ident) : IsName t.text := by
  have := h t ht (.inl hk)
  rwa [Token.lexeme, hk] at this

lemma importSpec_names {s : ImportSpec} (hts : HoldsNames ts) (hc : c.ahead <:+ ts) (h : c.importSpec = .ok (s, c')) :
    (∀ n ∈ s.name, IsImportName n) ∧ c'.ahead <:+ ts := by
  obtain ⟨t, -, -, ⟨hahead, rfl⟩ | ⟨u, hname, hahead, rfl⟩⟩ := Cursor.importSpec_eq_ok_iff.1 h
  · rw [hahead] at hc
    exact ⟨by simp, (List.suffix_cons t _).trans hc⟩
  · rw [hahead] at hc
    refine ⟨fun n hn => ?_, ((List.suffix_cons t _).trans (List.suffix_cons u _)).trans hc⟩
    cases hn
    exact ⟨u.kind, hname, hts u (hc.mem List.mem_cons_self) hname⟩

lemma groupedImportSpec_names {s : ImportSpec} (hts : HoldsNames ts) (hc : c.ahead <:+ ts)
    (h : c.groupedImportSpec = .ok (s, c')) : (∀ n ∈ s.name, IsImportName n) ∧ c'.ahead <:+ ts := by
  obtain ⟨d, hspec, ⟨-, rfl⟩ | ⟨-, t, hsemi⟩⟩ := Cursor.groupedImportSpec_eq_ok_iff.1 h
  · exact importSpec_names hts hc hspec
  · obtain ⟨hname, hd⟩ := importSpec_names hts hc hspec
    exact ⟨hname, (expect_suffix hsemi).trans hd⟩

lemma importDecl_names {i : ImportDecl} (hts : HoldsNames ts) (hc : c.ahead <:+ ts) (h : c.importDecl = .ok (i, c')) :
    (∀ s ∈ i.specs, ∀ n ∈ s.name, IsImportName n) ∧ c'.ahead <:+ ts := by
  obtain ⟨specs, grouped, d, hspecs, hend, rfl⟩ := Cursor.importDecl_eq_ok_iff.1 h
  obtain ⟨hnames, hd⟩ := oneOrGroup_forall advances_suffix
    (fun _ _ _ hd h => importSpec_names hts hd h) (fun _ _ _ hd h => groupedImportSpec_names hts hd h)
    (advance_suffix.trans hc) hspecs
  exact ⟨hnames, (endDeclaration_suffix hend).trans hd⟩

lemma imports_names {is : List ImportDecl} (hts : HoldsNames ts) (hc : c.ahead <:+ ts) (h : c.imports = .ok (is, c')) :
    ∀ s ∈ is.flatMap (·.specs), ∀ n ∈ s.name, IsImportName n := by
  fun_induction Cursor.imports c generalizing is with
  | case1 => cases h
  | case2 c hk i d e hlt ih =>
    obtain ⟨h₁, h₂⟩ := importDecl_names hts (pastSemis_suffix.trans hc) e
    obtain ⟨r, e', h⟩ := exists_of_map_eq_ok h
    cases h
    intro s hs
    rw [List.flatMap_cons, List.mem_append] at hs
    rcases hs with hs | hs
    · exact h₁ s hs
    · exact ih h₂ e' s hs
  | case3 =>
    cases h
    simp

lemma holdsNames_endStatements {s : Text} (hs : isWhole s) {ending : Bool} {size : Nat} (hts : ∀ t ∈ ts, t ∈ tokens s) :
    HoldsNames (endStatements size ending ts) := by
  rw [isWhole_iff] at hs
  induction ts generalizing ending with
  | nil =>
    unfold endStatements
    split <;> simp [HoldsNames, Token.impliedSemi]
  | cons t ts ih =>
    have ih' : ∀ ending, HoldsNames (endStatements size ending ts) :=
      fun _ => ih fun t ht => hts t (List.mem_cons_of_mem _ ht)
    have hmem : t.lexeme ∈ lex s := lexeme_mem_lex (hts t List.mem_cons_self)
    simp only [endStatements]
    split
    · split
      · intro u hu
        rcases List.mem_cons.1 hu with rfl | hu
        · simp [Token.impliedSemi]
        · exact ih' _ u hu
      · exact ih' _
    split
    · exact ih' _
    · intro u hu
      rcases List.mem_cons.1 hu with rfl | hu
      · intro _
        exact lex_text_of_mem hmem (hs _ hmem)
      · exact ih' _ u hu

/-- **Names that are read are names.** -/
theorem parse_names {s : Text} {tree : Tree} (h : parse s = .ok tree) :
    IsName tree.package.name ∧ ∀ i ∈ tree.imports.flatMap (·.specs), ∀ n ∈ i.name, IsImportName n := by
  obtain ⟨all, bare, hall, hbare, rfl⟩ := parse_eq_ok_iff.1 h
  obtain ⟨hs, -, rfl⟩ := tokenize_eq_ok_iff.1 hall
  have hts : HoldsNames (endStatements s.width false ((tokens s).filter (·.kind ≠ .blank))) :=
    holdsNames_endStatements hs fun t ht => (List.mem_filter.1 ht).1
  obtain ⟨p, c, is, c', ds, hclause, himports, -, rfl⟩ := Cursor.file_eq_ok_iff.1 hbare
  obtain ⟨keyword, d, name, d', hkeyword, hname, hend, rfl⟩ := Cursor.packageClause_eq_ok_iff.1 hclause
  have hd := (expect_suffix hkeyword).trans pastSemis_suffix
  obtain ⟨hahead, hkind, -⟩ := Cursor.expect_eq_ok_iff.1 hname
  have hmem : name ∈ d.ahead := by rw [hahead]; exact List.mem_cons_self
  refine ⟨hts.isName (hd.mem hmem) hkind, ?_⟩
  have := imports_names hts ((endDeclaration_suffix hend).trans ((expect_suffix hname).trans hd)) himports
  simpa [Tree.withComments, List.flatMap_map] using this

end Names

/-! ### A group that is written -/

section Group

variable {l : NewImport} {lines : List NewImport} {ts rest : List Token} {c : Cursor} {y : Text}

/-- Whether an import line can be read back. -/
def IsImportLine (l : NewImport) : Prop := ∀ n ∈ l.name, IsImportName n

/-- The import specs that a source file begins with. -/
def importSpecs (s : Text) : List ImportSpec :=
  match (Cursor.mk 0 (statementTokens s)).pastSemis.packageClause with
  | .ok (_, c) =>
    match c.imports with
    | .ok (is, _) => is.flatMap (·.specs)
    | .error _ => []
  | .error _ => []

/-- The line that a spec is written as. -/
def ImportSpec.line (s : ImportSpec) : NewImport := ⟨s.name, s.path⟩

/-- The lexemes of an import line. -/
def lineLexemes (l : NewImport) : List Lexeme :=
  ⟨.blank, ['\t']⟩ :: (match l.name with | some n => lex n ++ [⟨.blank, [' ']⟩] | none => []) ++
    [⟨.string, quote l.path⟩, ⟨.newline, ['\n']⟩]

/-- The lexemes of an import line that a reader sees. -/
def specLexemes (l : NewImport) : List Lexeme :=
  (match l.name with | some n => lex n | none => []) ++ [⟨.string, quote l.path⟩]

lemma IsImportName.all_isPathChar {n : Text} (h : IsImportName n) : n.all isPathChar := by
  obtain ⟨k, hk, hn⟩ := h
  exact all_isPathChar_of_lex (l := ⟨k, n⟩) hk hn rfl

lemma IsName.all_isPathChar {n : Text} (h : IsName n) : n.all isPathChar := all_isPathChar_of_lex (.inl rfl) h rfl

lemma IsImportName.exists_cons {n : Text} (h : IsImportName n) : ∃ d u, n = d :: u ∧ isBlank d = false := by
  have hall := h.all_isPathChar
  obtain ⟨k, hk, hn⟩ := h
  rcases n with _ | ⟨d, u⟩
  · simp at hn
  · rw [List.all_cons, Bool.and_eq_true] at hall
    exact ⟨d, u, rfl, not_isBlank_of_isPathChar hall.1⟩

lemma lex_line (hl : IsImportLine l) : lex ('\t' :: (l.render ++ '\n' :: y)) = lineLexemes l ++ lex y := by
  obtain ⟨_ | n, path⟩ := l
  · rw [lex_blank rfl (by rfl)]
    simp [NewImport.render, lineLexemes]
  · have hn : IsImportName n := hl n rfl
    obtain ⟨d, u, rfl, hd⟩ := hn.exists_cons
    obtain ⟨k, hk, hlex⟩ := hn
    have hwhole : (lex (d :: u)).all Lexeme.isSound := by
      rw [hlex]
      rcases hk with rfl | rfl <;> rfl
    have hlast : (lex (d :: u)).getLast?.all (·.precedes (' ' :: (quote path ++ '\n' :: y))) := by
      rw [hlex]
      rcases hk with rfl | rfl <;> rfl
    have h := lex_append_of_eq rfl hwhole hlast
    rw [lex_blank rfl (by simpa [NewImport.render] using hd)]
    simp only [NewImport.render, List.append_assoc, lineLexemes]
    rw [show (" ".toList : Text) ++ (quote path ++ '\n' :: y) = ' ' :: (quote path ++ '\n' :: y) from rfl, h,
      lex_blank (b := ' ') rfl (by rfl)]
    simp

lemma statementPart_lineLexemes (hl : IsImportLine l) :
    statementPart false (lineLexemes l) = specLexemes l ++ [.impliedSemi] := by
  obtain ⟨_ | n, path⟩ := l
  · rfl
  · obtain ⟨k, hk, hlex⟩ := hl n rfl
    simp only [lineLexemes, specLexemes, hlex]
    rcases hk with rfl | rfl <;> rfl

lemma endingBehind_lineLexemes (hl : IsImportLine l) : endingBehind false (lineLexemes l) = false := by
  obtain ⟨_ | n, path⟩ := l
  · rfl
  · obtain ⟨k, hk, hlex⟩ := hl n rfl
    simp only [lineLexemes, hlex]
    rcases hk with rfl | rfl <;> rfl

/-! #### Reading -/

lemma importSpec_read (hl : IsImportLine l) (hc : c.ahead = ts ++ rest) (hts : ts.map Token.lexeme = specLexemes l) :
    ∃ s c', c.importSpec = .ok (s, c') ∧ c'.ahead = rest ∧ s.line = l := by
  have hread : ∀ {t : Token} {path : Text}, t.lexeme = ⟨.string, quote path⟩ →
      (t.kind = .string ∨ t.kind = .rawString) ∧ Text.unquote t.text = path := by
    intro t path ht
    refine ⟨.inl (congrArg Lexeme.kind ht), ?_⟩
    rw [show t.text = quote path from congrArg Lexeme.text ht, Text.unquote_quote]
  obtain ⟨_ | n, path⟩ := l
  · obtain ⟨t, rfl, ht⟩ := List.map_eq_singleton_iff.1 hts
    obtain ⟨hpath, hunquote⟩ := hread ht
    exact ⟨_, ⟨t.stop, rest⟩, Cursor.importSpec_eq_ok_iff.2 ⟨t, hpath, rfl, .inl ⟨hc, rfl⟩⟩, rfl, congrArg (NewImport.mk none) hunquote⟩
  · obtain ⟨k, hk, hlex⟩ := hl n rfl
    change ts.map Token.lexeme = lex n ++ [⟨.string, quote path⟩] at hts
    rw [hlex] at hts
    obtain ⟨u, us, rfl, hu, hus⟩ := List.map_eq_cons_iff.1 hts
    obtain ⟨t, rfl, ht⟩ := List.map_eq_singleton_iff.1 hus
    obtain ⟨hpath, hunquote⟩ := hread ht
    have hname : u.kind = .ident ∨ u.kind = .dot := by rwa [show u.kind = k from congrArg Lexeme.kind hu]
    exact ⟨_, ⟨t.stop, rest⟩, Cursor.importSpec_eq_ok_iff.2 ⟨t, hpath, rfl, .inr ⟨u, hname, hc, rfl⟩⟩, rfl,
      congrArg₂ (fun name path => NewImport.mk (some name) path) (congrArg Lexeme.text hu) hunquote⟩

lemma groupedImportSpec_read (hl : IsImportLine l) (hc : c.ahead = ts ++ rest)
    (hts : ts.map Token.lexeme = specLexemes l ++ [.impliedSemi]) :
    ∃ s c', c.groupedImportSpec = .ok (s, c') ∧ c'.ahead = rest ∧ s.line = l := by
  obtain ⟨us, vs, rfl, hus, hvs⟩ := List.map_eq_append_iff.1 hts
  obtain ⟨t, rfl, ht⟩ := List.map_eq_singleton_iff.1 hvs
  obtain ⟨s, d, hs, hd, hline⟩ := importSpec_read hl (by rw [hc, List.append_assoc]) hus
  obtain ⟨b, ahead⟩ := d
  obtain rfl : ahead = t :: rest := hd
  obtain ⟨k, u, o⟩ := t
  obtain ⟨rfl, rfl⟩ := Lexeme.mk.inj ht
  exact ⟨s, ⟨Token.stop ⟨.semi, [], o⟩, rest⟩, Cursor.groupedImportSpec_eq_ok_iff.2 ⟨_, hs, .inr ⟨by simp [Cursor.kind?], _, rfl⟩⟩, rfl, hline⟩

lemma untilParen_of_rparen {α : Type} {item : ItemReader α} {goal : Goal} (hk : c.pastSemis.kind? = some .rparen) :
    item.untilParen goal c = .ok ([], c.pastSemis.advance) := by
  rw [ItemReader.untilParen]
  split
  · next e => simp [hk] at e
  · rfl
  · next k hne e =>
    rw [hk] at e
    cases e
    exact absurd rfl hne

lemma untilParen_of_read {α : Type} {item : ItemReader α} {goal : Goal} {a : α} {c' : Cursor} {k : Kind}
    (hk : c.pastSemis.kind? = some k) (hk' : k ≠ .rparen) (h : item.read c.pastSemis = .ok (a, c')) :
    item.untilParen goal c = (item.untilParen goal c').map fun (as, c'') => (a :: as, c'') := by
  rw [ItemReader.untilParen]
  split
  · next e => simp [hk] at e
  · next e =>
    rw [hk] at e
    cases e
    exact absurd rfl hk'
  · split
    · next e =>
      rw [h] at e
      cases e
    · next e =>
      rw [h] at e
      cases e
      rfl

/-- A group of import lines is read back. -/
lemma untilParen_read (hlines : ∀ l ∈ lines, IsImportLine l) {close : Token} (hclose : close.kind = .rparen)
    (hc : c.ahead = ts ++ close :: rest)
    (hts : ts.map Token.lexeme = lines.flatMap fun l => specLexemes l ++ [.impliedSemi]) :
    ∃ specs c', groupedImportItem.untilParen .importGroupEnd c = .ok (specs, c') ∧ c'.ahead = rest ∧
      c'.behind = close.stop ∧ specs.map ImportSpec.line = lines := by
  induction lines generalizing c ts with
  | nil =>
    obtain rfl := List.map_eq_nil_iff.1 hts
    obtain ⟨b, ahead⟩ := c
    obtain rfl : ahead = close :: rest := hc
    have hs : (Cursor.mk b (close :: rest)).pastSemis = ⟨b, close :: rest⟩ := by
      simp [Cursor.pastSemis, hclose]
    refine ⟨[], ⟨close.stop, rest⟩, ?_, rfl, rfl, rfl⟩
    rw [untilParen_of_rparen (by rw [hs]; simp [Cursor.kind?, hclose]), hs]
    rfl
  | cons l lines ih =>
    rw [List.flatMap_cons] at hts
    obtain ⟨us, vs, rfl, hus, hvs⟩ := List.map_eq_append_iff.1 hts
    have hl := hlines l List.mem_cons_self
    have hc' : c.ahead = us ++ (vs ++ close :: rest) := by rw [hc, List.append_assoc]
    obtain ⟨s, d, hs, hd, hline⟩ := groupedImportSpec_read hl hc' hus
    obtain ⟨specs, c', hspecs, hrest, hbehind, hlines'⟩ := ih (fun l h => hlines l (List.mem_cons_of_mem _ h)) hd hvs
    refine ⟨s :: specs, c', ?_, hrest, hbehind, by rw [List.map_cons, hline, hlines']⟩
    obtain ⟨t, us', rfl, ht⟩ : ∃ t us', us = t :: us' ∧ (t.kind = .ident ∨ t.kind = .dot ∨ t.kind = .string) := by
      obtain ⟨_ | n, path⟩ := l
      · obtain ⟨t, us', rfl, ht, -⟩ := List.map_eq_cons_iff.1 hus
        exact ⟨t, us', rfl, .inr (.inr (congrArg Lexeme.kind ht))⟩
      · obtain ⟨k, hk, hlex⟩ := hl n rfl
        change us.map Token.lexeme = lex n ++ [⟨.string, quote path⟩] ++ [.impliedSemi] at hus
        rw [hlex] at hus
        obtain ⟨t, us', rfl, ht, -⟩ := List.map_eq_cons_iff.1 hus
        have : t.kind = k := congrArg Lexeme.kind ht
        exact ⟨t, us', rfl, by rcases hk with rfl | rfl <;> simp [this]⟩
    have hpast : c.pastSemis = c := by
      obtain ⟨b, ahead⟩ := c
      obtain rfl : ahead = _ := hc'
      rcases ht with ht | ht | ht <;> simp [Cursor.pastSemis, ht]
    have hkind : c.pastSemis.kind? = some t.kind := by rw [hpast, Cursor.kind?, hc']; rfl
    rw [untilParen_of_read hkind (by rcases ht with ht | ht | ht <;> simp [ht]) (by rw [hpast]; exact hs), hspecs]
    rfl

lemma imports_of_importDecl {i : ImportDecl} {c' : Cursor} (hk : c.pastSemis.kind? = some .importWord)
    (h : c.pastSemis.importDecl = .ok (i, c')) : c.imports = c'.imports.map fun (is, c'') => (i :: is, c'') := by
  rw [Cursor.imports, dif_pos hk]
  split
  · next e =>
    rw [h] at e
    cases e
  · next e =>
    rw [h] at e
    cases e
    rfl

/-- The lexemes of a file's beginning that a reader sees: the package clause and a group of imports. -/
def headLexemes (package : Text) (lines : List NewImport) : List Lexeme :=
  [⟨.packageWord, "package"⟩, ⟨.ident, package⟩, .impliedSemi, ⟨.importWord, "import"⟩, ⟨.lparen, ['(']⟩] ++
    (lines.flatMap fun l => specLexemes l ++ [.impliedSemi]) ++ [⟨.rparen, [')']⟩, .impliedSemi]

/-- The package clause and a group of imports are read, and what follows is ahead. -/
lemma exists_read_head {s package : Text} {l : Lexeme} {ls : List Lexeme} (hlines : ∀ l ∈ lines, IsImportLine l)
    (h : statementLexemes false (lex s) = headLexemes package lines ++ l :: ls) (hl : l.kind ≠ .importWord)
    (hl' : l.kind ≠ .semi) :
    ∃ p c is c', (Cursor.mk 0 (statementTokens s)).pastSemis.packageClause = .ok (p, c) ∧ p.name = package ∧
      c.imports = .ok (is, c') ∧ (is.flatMap (·.specs)).map ImportSpec.line = lines ∧
      c'.ahead.map Token.lexeme = l :: ls := by
  have hts := map_lexeme_statementTokens (s := s)
  rw [h] at hts
  obtain ⟨ts, us, e, hhead, hrest⟩ := List.map_eq_append_iff.1 hts
  obtain ⟨vs, ends, rfl, hvs, hends⟩ := List.map_eq_append_iff.1 hhead
  obtain ⟨begins, specs, rfl, hbegins, hspecs⟩ := List.map_eq_append_iff.1 hvs
  obtain ⟨t₁, _, rfl, h₁, hbegins⟩ := List.map_eq_cons_iff.1 hbegins
  obtain ⟨t₂, _, rfl, h₂, hbegins⟩ := List.map_eq_cons_iff.1 hbegins
  obtain ⟨t₃, _, rfl, h₃, hbegins⟩ := List.map_eq_cons_iff.1 hbegins
  obtain ⟨t₄, _, rfl, h₄, hbegins⟩ := List.map_eq_cons_iff.1 hbegins
  obtain ⟨t₅, _, rfl, h₅, hbegins⟩ := List.map_eq_cons_iff.1 hbegins
  obtain rfl := List.map_eq_nil_iff.1 hbegins
  obtain ⟨t₆, _, rfl, h₆, hends⟩ := List.map_eq_cons_iff.1 hends
  obtain ⟨t₇, _, rfl, h₇, hends⟩ := List.map_eq_cons_iff.1 hends
  obtain rfl := List.map_eq_nil_iff.1 hends
  obtain ⟨t₈, us, rfl, h₈, -⟩ := List.map_eq_cons_iff.1 hrest
  replace h₁ : t₁.kind = .packageWord := congrArg Lexeme.kind h₁
  have hname : t₂.text = package := congrArg Lexeme.text h₂
  replace h₂ : t₂.kind = .ident := congrArg Lexeme.kind h₂
  replace h₃ : t₃.kind = .semi := congrArg Lexeme.kind h₃
  replace h₄ : t₄.kind = .importWord := congrArg Lexeme.kind h₄
  replace h₅ : t₅.kind = .lparen := congrArg Lexeme.kind h₅
  replace h₆ : t₆.kind = .rparen := congrArg Lexeme.kind h₆
  replace h₇ : t₇.kind = .semi := congrArg Lexeme.kind h₇
  have hfirst : t₈.kind = l.kind := congrArg Lexeme.kind h₈
  simp only [List.cons_append, List.nil_append, List.append_assoc] at e
  -- the package clause
  have hclause : (Cursor.mk 0 (statementTokens s)).pastSemis.packageClause =
      .ok (⟨t₂.text, t₁.start, t₂.stop⟩, ⟨t₃.stop, t₄ :: t₅ :: (specs ++ t₆ :: t₇ :: t₈ :: us)⟩) := by
    rw [e, Cursor.pastSemis, List.dropWhile_cons_of_neg (by simp [h₁])]
    exact Cursor.packageClause_of_kinds h₁ h₂ h₃
  -- the group
  obtain ⟨is, d, hread, hd, -, hmap⟩ := untilParen_read (c := ⟨t₅.stop, specs ++ t₆ :: t₇ :: t₈ :: us⟩) hlines h₆ rfl hspecs
  obtain ⟨b, ahead⟩ := d
  obtain rfl : ahead = t₇ :: t₈ :: us := hd
  have hdecl : (Cursor.mk t₃.stop (t₄ :: t₅ :: (specs ++ t₆ :: t₇ :: t₈ :: us))).pastSemis.importDecl =
      .ok (⟨is, ⟨t₄.start, b⟩, t₄.start, true⟩, ⟨t₇.stop, t₈ :: us⟩) := by
    rw [Cursor.pastSemis, List.dropWhile_cons_of_neg (by simp [h₄])]
    refine Cursor.importDecl_eq_ok_iff.2 ⟨is, true, ⟨b, t₇ :: t₈ :: us⟩, ?_, Cursor.endDeclaration_of_semi rfl h₇, rfl⟩
    simp [oneOrGroup, Cursor.advance, Cursor.kind?, h₅, hread, Except.map]
  have hend : (Cursor.mk t₇.stop (t₈ :: us)).imports = .ok ([], ⟨t₇.stop, t₈ :: us⟩) := by
    rw [Cursor.imports, dif_neg]
    simp [Cursor.pastSemis, Cursor.kind?, hfirst, hl, hl']
  refine ⟨_, _, [⟨is, ⟨t₄.start, b⟩, t₄.start, true⟩], ⟨t₇.stop, t₈ :: us⟩, hclause, hname, ?_, by simpa using hmap, hrest⟩
  rw [imports_of_importDecl (by simp [Cursor.pastSemis, Cursor.kind?, h₄]) hdecl, hend]
  rfl

/-- **A group of imports is read back.** -/
theorem importSpecs_of_head {s package : Text} {l : Lexeme} {ls : List Lexeme} (hlines : ∀ l ∈ lines, IsImportLine l)
    (h : statementLexemes false (lex s) = headLexemes package lines ++ l :: ls) (hl : l.kind ≠ .importWord)
    (hl' : l.kind ≠ .semi) : (importSpecs s).map ImportSpec.line = lines := by
  obtain ⟨p, c, is, c', hclause, -, himports, hmap, -⟩ := exists_read_head hlines h hl hl'
  rw [importSpecs, hclause]
  dsimp only
  rw [himports]
  exact hmap

end Group

end RuleWeaver.Source
