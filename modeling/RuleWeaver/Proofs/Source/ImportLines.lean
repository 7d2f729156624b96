import RuleWeaver.Proofs.Source.ImportCode

/-!
# The import lines of code

Which imports a file has can be told from the code of its head: each path is one, with the name directly in front of it
(`importLines`).  Imports that are read have the lines of the code that they are read from (`imports_list`).
-/

namespace RuleWeaver.Source

open Text (unquote)

variable {c c' d : Cursor} {t : Token} {l : Lexeme} {K L : List Lexeme} {ls ms : List NewImport} {name : Option Text} {goal : Goal}

/-- The import lines of code: its paths, each with the name directly in front of it.  `name` is the one in front of the code. -/
def importLines (name : Option Text) : List Lexeme → List NewImport
  | [] => []
  | l :: ls =>
    if l.kind.isPath then ⟨name, unquote l.text⟩ :: importLines none ls
    else importLines (if l.kind = .ident ∨ l.kind = .dot then some l.text else none) ls

lemma importLines_path (h : l.kind.isPath) : importLines name (l :: L) = ⟨name, unquote l.text⟩ :: importLines none L := if_pos h

lemma importLines_name (h : l.kind = .ident ∨ l.kind = .dot) : importLines name (l :: L) = importLines (some l.text) L := by
  have hpath : ¬ l.kind.isPath := by rcases h with h | h <;> rw [h] <;> decide
  rw [importLines, if_neg hpath, if_pos h]

lemma importLines_other (hpath : l.kind.isPath = false) (hname : ¬ (l.kind = .ident ∨ l.kind = .dot)) :
    importLines name (l :: L) = importLines none L := by
  rw [importLines, if_neg (by simp [hpath]), if_neg hname]

/-- Behind code that is no name, the lines start anew. -/
lemma importLines_append (hl : ¬ (l.kind = .ident ∨ l.kind = .dot)) :
    importLines name (K ++ l :: L) = importLines name (K ++ [l]) ++ importLines none L := by
  induction K generalizing name with
  | nil =>
    by_cases hpath : l.kind.isPath
    · rw [List.nil_append, List.nil_append, importLines_path hpath, importLines_path hpath]
      rfl
    · rw [Bool.not_eq_true] at hpath
      rw [List.nil_append, List.nil_append, importLines_other hpath hl, importLines_other hpath hl]
      rfl
  | cons m K ih =>
    rw [List.cons_append, List.cons_append, importLines, importLines]
    split
    · rw [ih, List.cons_append]
    · exact ih

/-- Statement ends are no imports. -/
lemma importLines_semi (hl : l.kind = .semi) : importLines name (K ++ l :: L) = importLines name K ++ importLines none L := by
  have hname : ¬ (l.kind = .ident ∨ l.kind = .dot) := by simp [hl]
  have hpath : l.kind.isPath = false := by rw [hl]; rfl
  have hlast : importLines name (K ++ [l]) = importLines name K := by
    induction K generalizing name with
    | nil => rw [List.nil_append, importLines_other hpath hname]; rfl
    | cons m K ih =>
      rw [List.cons_append, importLines, importLines, ih, ih]
  rw [importLines_append hname, hlast]

/-- Without paths there are no imports. -/
lemma importLines_eq_nil (h : ∀ l ∈ K, l.kind.isPath = false) : importLines name K = [] := by
  induction K generalizing name with
  | nil => rfl
  | cons l K ih =>
    rw [importLines, if_neg (by simp [h l List.mem_cons_self])]
    exact ih fun m hm => h m (List.mem_cons_of_mem _ hm)

/-! ### Reading -/

/-- Whether the code between two cursors has the import lines. -/
def Cursor.Lists (c : Cursor) (ls : List NewImport) (c' : Cursor) : Prop :=
  ∃ ts, c.ahead = ts ++ c'.ahead ∧ ∀ L, importLines none (ts.map Token.lexeme ++ L) = ls ++ importLines none L

namespace Cursor.Lists

lemma refl : c.Lists [] c := ⟨[], rfl, fun _ => rfl⟩

lemma trans (h : c.Lists ls d) (h' : d.Lists ms c') : c.Lists (ls ++ ms) c' := by
  obtain ⟨ts, hts, hL⟩ := h
  obtain ⟨us, hus, hL'⟩ := h'
  refine ⟨ts ++ us, by rw [hts, hus, List.append_assoc], fun L => ?_⟩
  rw [List.map_append, List.append_assoc, hL, hL', List.append_assoc]

/-- The lines are those of the tokens that are read. -/
lemma importLines_eq {ts : List Token} (h : c.Lists ls c') (hts : c.ahead = ts ++ c'.ahead) : importLines none (ts.map Token.lexeme) = ls := by
  obtain ⟨us, hus, hL⟩ := h
  obtain rfl : us = ts := List.append_cancel_right (hus.symm.trans hts)
  simpa [importLines] using hL []

/-- A token that is no path and no name. -/
lemma token (h : c.ahead = t :: c'.ahead) (hpath : t.kind.isPath = false) (hname : ¬ (t.kind = .ident ∨ t.kind = .dot)) :
    c.Lists [] c' :=
  ⟨[t], h, fun _ => importLines_other (l := t.lexeme) hpath hname⟩

lemma advance {k : Kind} (h : c.kind? = some k) (hpath : k.isPath = false) (hname : ¬ (k = .ident ∨ k = .dot)) :
    c.Lists [] c.advance := by
  obtain ⟨t, ts, ht, rfl⟩ := Cursor.kind?_eq_some h
  exact token (by rw [Cursor.advance, ht]) hpath hname

lemma pastSemis : c.Lists [] c.pastSemis := by
  obtain ⟨n, ts, hts, hn⟩ := exists_semis c
  refine ⟨ts, hts, fun L => ?_⟩
  clear hts
  induction ts generalizing n with
  | nil => rfl
  | cons t ts ih =>
    obtain _ | n := n
    · cases hn
    obtain ⟨ht, hn⟩ : t.kind = .semi ∧ ts.map (·.kind) = List.replicate n .semi := List.cons.inj hn
    rw [List.map_cons, List.cons_append,
      importLines_other (l := t.lexeme) (by rw [Token.lexeme_kind, ht]; rfl) (by rw [Token.lexeme_kind, ht]; decide), ih n hn]

lemma endDeclaration (h : c.endDeclaration = .ok c') : c.Lists [] c' := by
  rcases Cursor.endDeclaration_eq_ok h with ⟨-, rfl⟩ | ⟨t, ht, hahead, -⟩
  · exact refl
  · exact token hahead (by rw [ht]; rfl) (by rw [ht]; decide)

end Cursor.Lists

lemma importSpec_lists {s : ImportSpec} (h : c.importSpec = .ok (s, c')) : c.Lists [s.line] c' := by
  obtain ⟨t, hpath, -, ⟨hahead, rfl⟩ | ⟨u, hname, hahead, rfl⟩⟩ := Cursor.importSpec_eq_ok_iff.1 h
  · exact ⟨[t], hahead, fun L => importLines_path (l := t.lexeme) (isPath_iff.2 hpath)⟩
  · refine ⟨[u, t], hahead, fun L => ?_⟩
    exact (importLines_name (l := u.lexeme) hname).trans (importLines_path (l := t.lexeme) (isPath_iff.2 hpath))

lemma groupedImportSpec_lists {s : ImportSpec} (h : c.groupedImportSpec = .ok (s, c')) : c.Lists [s.line] c' := by
  obtain ⟨d, hspec, ⟨-, rfl⟩ | ⟨-, t, hsemi⟩⟩ := Cursor.groupedImportSpec_eq_ok_iff.1 h
  · exact importSpec_lists hspec
  · obtain ⟨hahead, hkind, -⟩ := Cursor.expect_eq_ok_iff.1 hsemi
    exact (importSpec_lists hspec).trans (.token hahead (by rw [hkind]; rfl) (by rw [hkind]; decide))

lemma untilParen_lists {specs : List ImportSpec} (h : groupedImportItem.untilParen goal c = .ok (specs, c')) :
    c.Lists (specs.map ImportSpec.line) c' := by
  fun_induction groupedImportItem.untilParen goal c generalizing specs with
  | case1 => exact absurd h Cursor.unmet_ne_ok
  | case2 c hk =>
    cases h
    exact Cursor.Lists.pastSemis.trans (.advance hk (by decide) (by decide))
  | case3 => cases h
  | case4 c k hparen hk spec d hread hlt ih =>
    obtain ⟨⟨specs', d'⟩, hrest, h⟩ := exists_of_map_eq_ok h
    simp only [Prod.mk.injEq] at h
    obtain ⟨rfl, rfl⟩ := h
    exact Cursor.Lists.pastSemis.trans ((groupedImportSpec_lists hread).trans (ih hrest))

lemma importDecl_lists {i : ImportDecl} (hk : c.kind? = some .importWord) (h : c.importDecl = .ok (i, c')) :
    c.Lists (i.specs.map ImportSpec.line) c' := by
  obtain ⟨-, d, hread, -, hend, -⟩ := importDecl_eq_ok hk h
  have hword : c.Lists [] c.advance := .advance hk (by decide) (by decide)
  refine hword.trans ?_
  rw [← List.append_nil (i.specs.map ImportSpec.line)]
  refine Cursor.Lists.trans ?_ (.endDeclaration hend)
  unfold oneOrGroup at hread
  split at hread
  · next hparen =>
    obtain ⟨p, hspecs, hread⟩ := exists_of_map_eq_ok hread
    simp only [Prod.mk.injEq] at hread
    obtain ⟨⟨hspecs', -⟩, rfl⟩ := hread
    rw [← hspecs']
    exact (Cursor.Lists.advance hparen (by decide) (by decide)).trans (untilParen_lists hspecs)
  · obtain ⟨p, hspec, hread⟩ := exists_of_map_eq_ok hread
    simp only [Prod.mk.injEq] at hread
    obtain ⟨⟨hspecs', -⟩, rfl⟩ := hread
    rw [← hspecs']
    exact importSpec_lists hspec

/-- **Imports that are read have the lines of their code.** -/
theorem imports_list {is : List ImportDecl} (h : c.imports = .ok (is, c')) : c.Lists ((is.flatMap (·.specs)).map ImportSpec.line) c' := by
  fun_induction Cursor.imports c generalizing is with
  | case1 => cases h
  | case2 c hk i d hread hlt ih =>
    obtain ⟨⟨is', d'⟩, hrest, h⟩ := exists_of_map_eq_ok h
    simp only [Prod.mk.injEq] at h
    obtain ⟨rfl, rfl⟩ := h
    rw [List.flatMap_cons, List.map_append]
    exact Cursor.Lists.pastSemis.trans ((importDecl_lists hk hread).trans (ih hrest))
  | case3 =>
    cases h
    exact .refl

end RuleWeaver.Source
