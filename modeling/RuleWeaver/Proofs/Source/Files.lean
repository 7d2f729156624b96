import RuleWeaver.Proofs.Source.Locality
import RuleWeaver.Proofs.Source.Sections

/-!
# Files that are alike

A file is read by its statements alone: where the tokens of another text are alike, with its statement ends made explicit,
that text has the same tree but for offsets (`exists_parse_of_alike`).
-/

namespace RuleWeaver.Source

variable {P : Text → Text → Prop} {s s₂ : Text} {c c' c₂ : Cursor} {e e₂ : List Token} {t u : Tree}

/-! ### Trees -/

/-- Whether two import declarations are the same but for offsets, and but for their paths, which are related. -/
structure ImportDecl.Like (P : Text → Text → Prop) (i j : ImportDecl) : Prop where
  specs : List.Forall₂ (ImportSpec.Like P) i.specs j.specs
  grouped : i.grouped = j.grouped

/-- Whether two trees are the same but for offsets, and but for paths and tags, which are related. -/
structure Tree.Like (P : Text → Text → Prop) (t u : Tree) : Prop where
  package : t.package.name = u.package.name
  imports : List.Forall₂ (ImportDecl.Like P) t.imports u.imports
  decls : List.Forall₂ (fun d d₂ : Decl => d.kind.Like P d₂.kind) t.decls u.decls

/-- The comments that are attached to a tree do not matter. -/
lemma Tree.Like.withComments {all all₂ : List Token} (h : t.Like P u) : (t.withComments all).Like P (u.withComments all₂) where
  package := h.package
  imports := List.forall₂_map_left_iff.2 (List.forall₂_map_right_iff.2 (h.imports.imp fun _ _ h => ⟨h.specs, h.grouped⟩))
  decls := List.forall₂_map_left_iff.2 (List.forall₂_map_right_iff.2 h.decls)

/-! ### Trees without offsets -/

/-- A span that stands for any other one. -/
def Span.nowhere : Span := ⟨0, 0⟩

def ImportSpec.unplaced (s : ImportSpec) : ImportSpec := { s with span := .nowhere }

def ImportDecl.unplaced (i : ImportDecl) : ImportDecl := ⟨i.specs.map ImportSpec.unplaced, .nowhere, 0, i.grouped⟩

def DeclKind.unplaced : DeclKind → DeclKind
  | .function f => .function { f with body := f.body.map fun _ => .nowhere }
  | k => k

def Decl.unplaced (d : Decl) : Decl := ⟨d.kind.unplaced, .nowhere, 0⟩

/-- A tree without its offsets. -/
def Tree.unplaced (t : Tree) : Tree where
  package := ⟨t.package.name, .nowhere⟩
  imports := t.imports.map ImportDecl.unplaced
  decls := t.decls.map Decl.unplaced

lemma map_eq_of_forall₂ {α β : Type} {R : α → α → Prop} {f : α → β} {as bs : List α} (h : List.Forall₂ R as bs)
    (hR : ∀ a b, R a b → f a = f b) : as.map f = bs.map f :=
  eq_of_forall₂ (List.forall₂_map_left_iff.2 (List.forall₂_map_right_iff.2 (h.imp hR))) fun _ _ => id

lemma ImportSpec.Like.unplaced_eq {r r' : ImportSpec} (h : r.Like Eq r') : r.unplaced = r'.unplaced := by
  simp only [ImportSpec.unplaced, h.name, related_eq_iff.1 h.path]

lemma ImportDecl.Like.unplaced_eq {i j : ImportDecl} (h : i.Like Eq j) : i.unplaced = j.unplaced := by
  have hspecs : i.specs.map ImportSpec.unplaced = j.specs.map ImportSpec.unplaced :=
    map_eq_of_forall₂ h.specs fun _ _ => ImportSpec.Like.unplaced_eq
  rw [ImportDecl.unplaced, ImportDecl.unplaced, hspecs, h.grouped]

lemma DeclKind.Like.unplaced_eq {k k₂ : DeclKind} (h : k.Like Eq k₂) : k.unplaced = k₂.unplaced := by
  cases h with
  | types h => exact congrArg DeclKind.types (eq_of_forall₂ h fun _ _ => TypeSpec.Like.eq)
  | vars | consts => rfl
  | @function f g h =>
    obtain ⟨name, receiver, body⟩ := f
    obtain ⟨name', receiver', body'⟩ := g
    obtain ⟨houtline, hbody⟩ := h
    obtain ⟨rfl, rfl⟩ : name = name' ∧ receiver = receiver' := by simpa [Function.outline] using houtline
    cases body <;> cases body' <;> first | rfl | cases hbody

/-- Trees that are the same but for offsets. -/
theorem Tree.Like.unplaced_eq (h : t.Like Eq u) : t.unplaced = u.unplaced := by
  have himports : t.imports.map ImportDecl.unplaced = u.imports.map ImportDecl.unplaced :=
    map_eq_of_forall₂ h.imports fun _ _ => ImportDecl.Like.unplaced_eq
  have hdecls : t.decls.map Decl.unplaced = u.decls.map Decl.unplaced :=
    map_eq_of_forall₂ h.decls fun d d₂ h => by rw [Decl.unplaced, Decl.unplaced, h.unplaced_eq]
  rw [Tree.unplaced, Tree.unplaced, h.package, himports, hdecls]

/-! ### Reading -/

lemma endDeclaration_agree (hagree : Agree P e e₂ c c₂) (h : c.endDeclaration = .ok c') (hle : e.length ≤ c'.size) :
    ∃ c₂', c₂.endDeclaration = .ok c₂' ∧ Agree P e e₂ c' c₂' := by
  rcases Cursor.endDeclaration_eq_ok h with ⟨hnil, rfl⟩ | ⟨t, ht, hahead, -⟩
  · have hnil₂ : c₂.ahead = [] := by
      have := hagree.kind?
      rw [Cursor.kind?, Cursor.kind?, hnil] at this
      simpa using this
    exact ⟨c₂, by rw [Cursor.endDeclaration, hnil₂], hagree⟩
  · have hlt : e.length < c.size := by
      rw [Cursor.size, hahead, List.length_cons]
      exact Nat.lt_succ_of_le hle
    obtain ⟨t', t₂, ts, ts₂, hc, hc₂, hlike, hrest⟩ := hagree.next hlt (by rw [Cursor.kind?, hahead]; simp [ht])
    rw [hahead] at hc
    obtain ⟨rfl, rfl⟩ := List.cons.inj hc
    exact ⟨⟨t₂.stop, ts₂⟩, Cursor.endDeclaration_of_semi hc₂ (hlike.1.symm.trans ht), hrest _ _⟩

lemma packageClause_agree {p : PackageClause} (hagree : Agree P e e₂ c c₂) (h : c.packageClause = .ok (p, c'))
    (hle : e.length ≤ c'.size) : ∃ p₂ c₂', c₂.packageClause = .ok (p₂, c₂') ∧ p.name = p₂.name ∧ Agree P e e₂ c' c₂' := by
  obtain ⟨k, d₁, n, d₂, hk, hn, hend, rfl⟩ := Cursor.packageClause_eq_ok_iff.1 h
  have hle₂ : e.length ≤ d₂.size := Nat.le_trans hle (Cursor.endDeclaration_size_le hend)
  have hle₁ : e.length ≤ d₁.size := Nat.le_trans hle₂ (Nat.le_of_lt (Cursor.expect_shorter hn))
  obtain ⟨k₂, f₁, g₁, -, hagree⟩ := expect_agree hagree hk hle₁ (by decide)
  obtain ⟨n₂, f₂, g₂, hname, hagree⟩ := expect_agree hagree hn hle₂ (by decide)
  obtain ⟨f₃, g₃, hagree⟩ := endDeclaration_agree hagree hend hle
  exact ⟨⟨n₂.text, ⟨k₂.start, n₂.stop⟩⟩, f₃, Cursor.packageClause_eq_ok_iff.2 ⟨k₂, f₁, n₂, f₂, g₁, g₂, g₃, rfl⟩,
    hname.text (by rw [(Cursor.expect_eq_ok_iff.1 hn).2.1]; decide), hagree⟩

lemma importDecl_agree {i : ImportDecl} (hagree : Agree P e e₂ c c₂) (hk : c.kind? = some .importWord)
    (h : c.importDecl = .ok (i, c')) (hle : e.length ≤ c'.size) :
    ∃ j c₂', c₂.importDecl = .ok (j, c₂') ∧ i.Like P j ∧ Agree P e e₂ c' c₂' := by
  obtain ⟨ts, d, hread, hreads, hend, -⟩ := importDecl_eq_ok hk h
  have hd : e.length ≤ d.size := Nat.le_trans hle (Cursor.endDeclaration_size_le hend)
  have hlt : e.length < c.size := Nat.lt_of_le_of_lt (Nat.le_trans hd (oneOrGroup_size_le hread)) (Cursor.advance_size_lt hk)
  obtain ⟨r, d₂, hread₂, ⟨hspecs, hgrouped⟩, hagree⟩ := oneOrGroup_local (R := ImportSpec.Like P)
    importSpec_local groupedImportSpec_local (hagree.advance hlt (by rw [hk]; decide)) hread hd
  obtain ⟨c₂', hend₂, hagree⟩ := endDeclaration_agree hagree hend hle
  exact ⟨⟨r.1, ⟨c₂.start, d₂.behind⟩, c₂.start, r.2⟩, c₂', Cursor.importDecl_eq_ok_iff.2 ⟨r.1, r.2, d₂, hread₂, hend₂, rfl⟩,
    ⟨hspecs, hgrouped⟩, hagree⟩

lemma imports_of_stop (hk : c.pastSemis.kind? ≠ some .importWord) : c.imports = .ok ([], c) := by
  rw [Cursor.imports, dif_neg hk]

lemma imports_agree {is : List ImportDecl} (hagree : Agree P [] [] c c₂) (h : c.imports = .ok (is, c')) :
    ∃ js c₂', c₂.imports = .ok (js, c₂') ∧ List.Forall₂ (ImportDecl.Like P) is js ∧ Agree P [] [] c' c₂' := by
  fun_induction Cursor.imports c generalizing is c₂ with
  | case1 => cases h
  | case2 c hk i d hread hlt ih =>
    obtain ⟨⟨is', d'⟩, hrest, h⟩ := exists_of_map_eq_ok h
    simp only [Prod.mk.injEq] at h
    obtain ⟨rfl, rfl⟩ := h
    have hpast := hagree.pastSemis (Nat.zero_le _)
    obtain ⟨j, d₂, hread₂, hij, hd⟩ := importDecl_agree hpast hk hread (Nat.zero_le _)
    obtain ⟨js, c₂', hjs, hlike, hagree'⟩ := ih hd hrest
    refine ⟨j :: js, c₂', ?_, .cons hij hlike, hagree'⟩
    rw [imports_of_importDecl (hpast.kind?.trans hk) hread₂, hjs]
    rfl
  | case3 c hk =>
    cases h
    exact ⟨[], c₂, imports_of_stop (by rw [(hagree.pastSemis (Nat.zero_le _)).kind?]; exact hk), .nil, hagree⟩

lemma decls_agree {ds : List Decl} (hagree : Agree P [] [] c c₂) (h : c.decls = .ok ds) :
    ∃ ds₂, c₂.decls = .ok ds₂ ∧ List.Forall₂ (fun d d₂ : Decl => d.kind.Like P d₂.kind) ds ds₂ := by
  fun_induction Cursor.decls c generalizing ds c₂ with
  | case1 c hk =>
    cases h
    refine ⟨[], ?_, .nil⟩
    rw [Cursor.decls, if_pos ((hagree.pastSemis (Nat.zero_le _)).kind?.trans hk)]
  | case2 => cases h
  | case3 c hk d c' hread hlt ih =>
    obtain ⟨ds', hrest, rfl⟩ := exists_of_map_eq_ok h
    have hpast := hagree.pastSemis (Nat.zero_le _)
    obtain ⟨f, hkind, hend, -⟩ := Cursor.decl_eq_ok hread
    obtain ⟨kind₂, f₂, hkind₂, hlike, hf⟩ := declKind_local hpast hkind (Nat.zero_le _)
    obtain ⟨c₂', hend₂, hagree'⟩ := endDeclaration_agree hf hend (Nat.zero_le _)
    obtain ⟨ds₂, hds₂, hall⟩ := ih hagree' hrest
    have hdecl : c₂.pastSemis.decl = .ok (⟨kind₂, ⟨c₂.pastSemis.start, f₂.behind⟩, c₂.pastSemis.start⟩, c₂') :=
      Cursor.decl_eq_ok_iff.2 ⟨kind₂, f₂, hkind₂, hend₂, rfl⟩
    refine ⟨⟨kind₂, ⟨c₂.pastSemis.start, f₂.behind⟩, c₂.pastSemis.start⟩ :: ds₂, ?_, .cons hlike hall⟩
    rw [decls_of_decl (by rw [hpast.kind?]; exact hk) hdecl, hds₂]
    rfl

lemma file_agree (hagree : Agree P [] [] c c₂) (h : c.file = .ok t) : ∃ u, c₂.file = .ok u ∧ t.Like P u := by
  obtain ⟨p, d, is, d', ds, h₁, h₂, h₃, rfl⟩ := Cursor.file_eq_ok_iff.1 h
  obtain ⟨p₂, f₁, g₁, hname, hagree⟩ := packageClause_agree (hagree.pastSemis (Nat.zero_le _)) h₁ (Nat.zero_le _)
  obtain ⟨is₂, f₂, g₂, himports, hagree⟩ := imports_agree hagree h₂
  obtain ⟨ds₂, g₃, hdecls⟩ := decls_agree hagree h₃
  exact ⟨⟨p₂, is₂, ds₂⟩, Cursor.file_eq_ok_iff.2 ⟨p₂, f₁, is₂, f₂, ds₂, g₁, g₂, g₃, rfl⟩, ⟨hname, himports, hdecls⟩⟩

lemma parse_of_file (hw : isWhole s) (hb : isBalanced [] (lex s)) (h : (Cursor.mk 0 (statementTokens s)).file = .ok t) :
    parse s = .ok (t.withComments ((tokens s).filter (·.kind ≠ .blank))) :=
  parse_eq_ok_iff.2 ⟨_, t, tokenize_eq_ok_iff.2 ⟨hw, hb, rfl⟩, h, rfl⟩

lemma file_of_parse (h : parse s = .ok t) : isWhole s ∧ isBalanced [] (lex s) ∧
    ∃ u, (Cursor.mk 0 (statementTokens s)).file = .ok u ∧ t = u.withComments ((tokens s).filter (·.kind ≠ .blank)) := by
  obtain ⟨hw, hb, p, c, is, c', ds, h₁, h₂, h₃, rfl⟩ := parse_eq_ok h
  exact ⟨hw, hb, ⟨p, is, ds⟩, Cursor.file_eq_ok_iff.2 ⟨p, c, is, c', ds, h₁, h₂, h₃, rfl⟩, rfl⟩

/-- **Files are read by their statements.** -/
theorem exists_parse_of_alike (h : parse s = .ok t) (hw : isWhole s₂) (hb : isBalanced [] (lex s₂))
    (halike : Alike P 0 false (statementTokens s) (statementTokens s₂)) : ∃ u, parse s₂ = .ok u ∧ t.Like P u := by
  obtain ⟨-, -, t', hfile, rfl⟩ := file_of_parse h
  have hagree : Agree P [] [] (Cursor.mk 0 (statementTokens s)) (Cursor.mk 0 (statementTokens s₂)) :=
    ⟨0, false, _, _, (List.append_nil _).symm, (List.append_nil _).symm, halike, .inl ⟨rfl, rfl⟩⟩
  obtain ⟨u, hu, hlike⟩ := file_agree hagree hfile
  exact ⟨_, parse_of_file hw hb hu, hlike.withComments⟩

end RuleWeaver.Source
