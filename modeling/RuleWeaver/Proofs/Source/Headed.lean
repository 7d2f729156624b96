import RuleWeaver.Proofs.Source.OpenEnds

/-!
# Files with code at their end

A text that is a head with code behind it is read as the declarations of that code (`Headed.exists_parse`), and it stays such a
text when sections are put at its end (`Headed.append`).  They are all read, unless the last declaration in front of them is
open (`Headed.length_lt`).
-/

namespace RuleWeaver.Source

variable {s t : Text} {tree : Tree} {H L : List Lexeme} {ks ls : List DeclKind}

/-- Whether a text is a head with code behind it. -/
structure Headed (s : Text) (head code : List Lexeme) : Prop where
  whole : isWhole s
  balanced : isBalanced [] (lex s)
  lexemes : ∃ l, l.kind = .semi ∧ statementLexemes false (lex s) = head ++ l :: code
  isHead : IsHeadCode (head.map Lexeme.kind)

/-- The lines of the imports of a file. -/
def Tree.importLines (tree : Tree) : List NewImport := (tree.imports.flatMap (·.specs)).map ImportSpec.line

namespace Headed

/-- Sections may be put at the end. -/
lemma append (h : Headed s H L) (ht : IsSection t ks) (hline : t = [] ∨ ∃ u, t = '\n' :: u) :
    Headed (s ++ t) H (L ++ statementPart false (lex t)) := by
  obtain ⟨hlex, hcode⟩ := ht.lex_behind h.whole hline
  obtain ⟨l, hl, hs⟩ := h.lexemes
  refine ⟨?_, ?_, ⟨l, hl, ?_⟩, h.isHead⟩
  · rw [isWhole, hlex, List.all_append, Bool.and_eq_true]
    exact ⟨h.whole, ht.whole⟩
  · rw [hlex, isBalanced_append h.balanced]
    exact ht.balanced
  · rw [hcode, hs]
    simp

/-- **The declarations behind the head are those of the file**, and its imports are those of the head. -/
theorem exists_parse (h : Headed s H L) (hL : ReadsAs L ks) : ∃ tree, parse s = .ok tree ∧ tree.decls.map (·.kind.shape) = ks ∧
    tree.importLines = importLines none H ∧ ∃ (c : Cursor) (ds : List Decl), c.ahead.map Token.lexeme = L ∧
      c.ahead <:+ statementTokens s ∧ c.decls = .ok ds ∧ tree.decls.map Decl.core = ds.map Decl.core := by
  obtain ⟨l, hl, hs⟩ := h.lexemes
  obtain ⟨c, hc, hsuffix, hread⟩ := parse_of_head h.whole h.balanced hs h.isHead hl
  obtain ⟨ds, hds, hshapes⟩ := hL c hc
  obtain ⟨hparse, hall⟩ := hread (kind?_of_decls hds)
  obtain ⟨tree, htree⟩ := hparse ds hds
  obtain ⟨⟨es, hes, hcore⟩, hlines⟩ := hall tree htree
  obtain rfl : ds = es := by rwa [hds, Except.ok.injEq] at hes
  refine ⟨tree, htree, ?_, hlines, c, ds, hc, hsuffix, hds, hcore⟩
  have := congrArg (List.map fun x : DeclKind × Span => x.1.shape) hcore
  simpa [Decl.core, Function.comp_def, hshapes] using this

/-- **What is put behind an open end is not all read.** -/
theorem length_lt {M : List Lexeme} (hL : ReadsAs L ks) (hopen : ∃ l ∈ L.getLast?, l.kind ≠ .semi)
    (h : Headed s H (L ++ M)) (hM : ∃ l ∈ M.head?, l.opensDecl) (hs : parse s = .ok tree) :
    tree.decls.length < ks.length + M.countP Lexeme.opensDecl := by
  obtain ⟨l, hl, hlexemes⟩ := h.lexemes
  obtain ⟨c, hc, -, hread⟩ := parse_of_head h.whole h.balanced hlexemes h.isHead hl
  obtain ⟨us, rest, hahead, hus, hrest⟩ := List.map_eq_append_iff.1 hc
  obtain ⟨ds, hds, hshapes⟩ := hL ⟨0, us⟩ hus
  have hlast : ∃ t ∈ us.getLast?, t.kind ≠ .semi := by
    obtain ⟨l, hl, hne⟩ := hopen
    rw [← hus, List.getLast?_map] at hl
    obtain ⟨t, ht, rfl⟩ := Option.map_eq_some_iff.1 hl
    exact ⟨t, ht, hne⟩
  -- what stands in front begins as it did
  have hne : (Cursor.mk 0 us).pastSemis.ahead ≠ [] := by
    intro hnil
    obtain ⟨n, ss, hss, hn⟩ := exists_semis ⟨0, us⟩
    obtain ⟨t, ht, hsemi⟩ := hlast
    rw [hnil, List.append_nil] at hss
    have hmem := List.mem_map_of_mem (f := (·.kind)) (List.mem_of_getLast? ht)
    rw [show us = ss from hss, hn] at hmem
    exact hsemi (List.eq_of_mem_replicate hmem)
  obtain ⟨vs, hpast, hvs⟩ := exists_pastSemis hne hahead rfl
  have hstop : c.pastSemis.kind? ≠ some .importWord := by
    obtain ⟨t, ts, hts⟩ := List.exists_cons_of_ne_nil hne
    rw [hts, List.map_cons] at hvs
    obtain ⟨v, vs, rfl, hv, -⟩ := List.map_eq_cons_iff.1 hvs
    have hkind : (Cursor.mk 0 us).pastSemis.kind? = c.pastSemis.kind? := by
      rw [Cursor.kind?, Cursor.kind?, hts, hpast]
      exact congrArg some (congrArg Lexeme.kind hv.symm)
    rw [← hkind]
    exact kind?_of_decls hds
  obtain ⟨⟨es, hes, hcore⟩, -⟩ := (hread hstop).2 tree hs
  have hlt := length_decls_lt hds hlast hahead rfl (by
    obtain ⟨l, hl, hopens⟩ := hM
    rw [← hrest, List.head?_map] at hl
    obtain ⟨t, ht, rfl⟩ := Option.map_eq_some_iff.1 hl
    exact ⟨t, ht, hopens⟩) hes
  have hlength := congrArg List.length hcore
  rw [List.length_map, List.length_map] at hlength
  rw [hlength, ← hshapes, List.length_map, ← hrest, ← countP_opensDecl]
  exact hlt

end Headed

/-- A file is its head with its declarations behind it. -/
lemma Head.Cut.headed {hd : Head s tree} (k : hd.Cut) (h : parse s = .ok tree) :
    Headed s (statementPart false k.lexemes) (hd.rest.map Token.lexeme) where
  whole := (parse_eq_ok h).1
  balanced := (parse_eq_ok h).2.1
  lexemes := by
    refine ⟨k.semi.lexeme, k.semi_kind, ?_⟩
    rw [← map_lexeme_statementTokens, k.statementTokens_eq, Head.Cut.lexemes, ← k.map_statements]
    simp
  isHead := k.isHead.code

end RuleWeaver.Source
