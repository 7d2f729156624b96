import Mathlib.Data.List.TakeWhile
import RuleWeaver.Proofs.Source.Sections

/-!
# Package clauses and imports

What stands in front of the declarations of a file.  The package clause and the imports end behind a token up to which there
is nothing but code of their classes (`parse_endsInPreamble`): no braces and no keywords of declarations.
-/

namespace RuleWeaver.Source

variable {s : Text} {c c' d : Cursor} {t : Token} {ts rest : List Token} {n : Nat} {l : Lexeme} {e : Bool} {ls : List Lexeme}

/-- Classes of the code that package clauses and imports are made of. -/
def Kind.isPreamble : Kind → Bool
  | packageWord | importWord | ident | string | rawString | dot | lparen | rparen | semi => true
  | _ => false

/-- Whether nothing but package clauses and imports stands in front of a cursor. -/
def Cursor.InPreamble (s : Text) (c : Cursor) : Prop :=
  ∃ pre, statementTokens s = pre ++ c.ahead ∧ ∀ t ∈ pre, t.kind.isPreamble

/-- Whether an offset is the one behind a token of the package clause or the imports, with no brace next to it. -/
def EndsInPreamble (s : Text) (n : Nat) : Prop :=
  ∃ L₁ t L₂, tokens s = L₁ ++ t :: L₂ ∧ t.stop = n ∧ t.kind.isSignificant ∧
    (∀ u ∈ L₁ ++ [t], u.kind.isSignificant → u.kind.isPreamble) ∧ ∀ u ∈ L₂.head?, u.kind ≠ .lbrace

lemma mem_statementPart_of_isSignificant (hl : l ∈ ls) (hs : l.kind.isSignificant) : l ∈ statementPart e ls := by
  induction ls generalizing e with
  | nil => cases hl
  | cons m ls ih =>
    rcases List.mem_cons.1 hl with rfl | hl
    · rw [statementPart_cons_of_isSignificant hs]
      exact List.mem_cons_self
    · rw [statementPart]
      split
      · split
        · exact List.mem_cons_of_mem _ (ih hl)
        · exact ih hl
      split
      · exact ih hl
      · exact List.mem_cons_of_mem _ (ih hl)

namespace Cursor.InPreamble

lemma append (h : c.InPreamble s) (hc : c.ahead = ts ++ c'.ahead) (hts : ∀ t ∈ ts, t.kind.isPreamble) : c'.InPreamble s := by
  obtain ⟨pre, hpre, hall⟩ := h
  refine ⟨pre ++ ts, by rw [hpre, hc, List.append_assoc], fun t ht => ?_⟩
  exact (List.mem_append.1 ht).elim (hall t) (hts t)

lemma cons (h : c.InPreamble s) (hc : c.ahead = t :: c'.ahead) (ht : t.kind.isPreamble) : c'.InPreamble s :=
  h.append (show c.ahead = [t] ++ c'.ahead from hc) (by simpa using ht)

lemma pastSemis (h : c.InPreamble s) : c.pastSemis.InPreamble s := by
  have hahead : c.ahead = c.ahead.takeWhile (·.kind = .semi) ++ c.pastSemis.ahead := List.takeWhile_append_dropWhile.symm
  refine h.append hahead fun t ht => ?_
  have : t.kind = .semi := by simpa using List.mem_takeWhile_imp ht
  rw [this]
  rfl

lemma advance (h : c.InPreamble s) (hk : ∀ k ∈ c.kind?, k.isPreamble) : c.advance.InPreamble s := by
  unfold Cursor.advance
  split
  · exact h
  · next t ts e =>
    refine h.cons (show c.ahead = t :: (⟨t.stop, ts⟩ : Cursor).ahead from e) (hk t.kind ?_)
    rw [Cursor.kind?, e]
    rfl

lemma endDeclaration (h : c.InPreamble s) (hc : c.endDeclaration = .ok c') : c'.InPreamble s := by
  rcases Cursor.endDeclaration_eq_ok hc with ⟨-, rfl⟩ | ⟨t, ht, e, -⟩
  · exact h
  · exact h.cons e (by rw [ht]; rfl)

/-- A token that is read of a preamble. -/
lemma endsInPreamble (h : c.InPreamble s) (hc : c.ahead = ts ++ t :: rest) (hts : ∀ u ∈ ts, u.kind.isPreamble)
    (ht : t.kind.isPreamble) (hsemi : t.kind ≠ .semi) (hrest : ∀ u ∈ rest.head?, u.kind ≠ .lbrace) :
    EndsInPreamble s t.stop := by
  obtain ⟨pre, hpre, hall⟩ := h
  rw [hc, ← List.append_assoc] at hpre
  obtain ⟨L₁, L₂, htokens, hsig, hpart, hends⟩ := endStatements_eq_append hpre hsemi
  refine ⟨L₁, t, L₂, htokens, rfl, hsig, fun u hu husig => ?_, fun u hu hbrace => ?_⟩
  swap
  · -- the next token would be read next
    obtain ⟨L₂, rfl⟩ := List.head?_eq_some_iff.1 hu
    have husig : u.kind.isSignificant := by rw [hbrace]; rfl
    rw [endStatements_cons_of_isSignificant husig] at hends
    exact hrest u (by rw [hends]; rfl) hbrace
  have hmem : u.lexeme ∈ statementPart false ((L₁ ++ [t]).map Token.lexeme) :=
    mem_statementPart_of_isSignificant (List.mem_map_of_mem hu) husig
  rw [← hpart] at hmem
  obtain ⟨v, hv, hvu⟩ := List.mem_map.1 hmem
  have hkind : v.kind = u.kind := congrArg Lexeme.kind hvu
  rw [← hkind]
  rw [List.mem_append, List.mem_append, List.mem_singleton] at hv
  rcases hv with (hv | hv) | rfl
  · exact hall v hv
  · exact hts v hv
  · exact ht

/-- What is read of a preamble ends in it. -/
lemma behind (h : c.InPreamble s) (hd : d.InPreamble s) (hr : c.Reads ts d) (hts : ts ≠ []) (hend : d.endDeclaration = .ok c') :
    EndsInPreamble s d.behind := by
  obtain ⟨us, t, rfl⟩ := List.eq_nil_or_concat ts |>.resolve_left hts
  rw [List.concat_eq_append] at hr
  obtain ⟨pre, hpre, hall⟩ := h
  obtain ⟨pre', hpre', hall'⟩ := hd
  have hsplit : pre' = pre ++ (us ++ [t]) := by
    rw [hpre, hr.ahead, ← List.append_assoc] at hpre'
    exact (List.append_cancel_right hpre').symm
  have hmem : ∀ u ∈ us ++ [t], u.kind.isPreamble := fun u hu => hall' u (by rw [hsplit]; exact List.mem_append_right _ hu)
  have hstop : d.behind = t.stop := by
    rw [hr.behind, List.getLast?_concat]
    rfl
  rw [hstop]
  have hahead : c.ahead = us ++ t :: d.ahead := by
    rw [hr.ahead]
    simp
  refine endsInPreamble ⟨pre, hpre, hall⟩ hahead (fun u hu => hmem u (by simp [hu])) (hmem t (by simp)) (hr.last t ?_) ?_
  · rw [List.getLast?_concat]
    rfl
  · intro u hu
    rcases Cursor.endDeclaration_eq_ok hend with ⟨e, -⟩ | ⟨v, hv, e, -⟩
    · rw [e] at hu
      cases hu
    · rw [e] at hu
      cases hu
      rw [hv]
      decide

end Cursor.InPreamble

/-! ### Imports -/

lemma advances_inPreamble : Advances (Cursor.InPreamble s) where
  semis _ h := h.pastSemis
  parens d hk h := h.advance fun k hk' => by
    rcases hk with hk | hk <;> rw [hk] at hk' <;> cases hk' <;> rfl

lemma importSpec_inPreamble {spec : ImportSpec} (hc : c.InPreamble s) (h : c.importSpec = .ok (spec, c')) :
    c'.InPreamble s ∧ ((∀ u ∈ c'.ahead.head?, u.kind ≠ .lbrace) → EndsInPreamble s spec.span.stop) := by
  obtain ⟨t, hpath, -, hcases⟩ := Cursor.importSpec_eq_ok_iff.1 h
  have ht : t.kind.isPreamble ∧ t.kind ≠ .semi := by rcases hpath with hk | hk <;> rw [hk] <;> decide
  obtain ⟨hahead, rfl⟩ | ⟨u, hname, hahead, rfl⟩ := hcases
  · exact ⟨hc.cons hahead ht.1, hc.endsInPreamble (show c.ahead = [] ++ t :: c'.ahead from hahead) (by simp) ht.1 ht.2⟩
  · have hu : u.kind.isPreamble := by rcases hname with hk | hk <;> rw [hk] <;> decide
    have hd : (Cursor.mk u.stop (t :: c'.ahead)).InPreamble s := hc.cons hahead hu
    exact ⟨hd.cons rfl ht.1, hd.endsInPreamble (show _ = [] ++ t :: c'.ahead from rfl) (by simp) ht.1 ht.2⟩

lemma groupedImportSpec_inPreamble {spec : ImportSpec} (hc : c.InPreamble s) (h : c.groupedImportSpec = .ok (spec, c')) :
    EndsInPreamble s spec.span.stop ∧ c'.InPreamble s := by
  obtain ⟨d, hspec, hend⟩ := Cursor.groupedImportSpec_eq_ok_iff.1 h
  obtain ⟨h₁, h₂⟩ := importSpec_inPreamble hc hspec
  rcases hend with ⟨hclose, rfl⟩ | ⟨-, t, hsemi⟩
  · refine ⟨h₂ fun u hu => ?_, h₁⟩
    rw [Cursor.kind?, hu, Option.map_some, Option.some.injEq] at hclose
    rw [hclose]
    decide
  · obtain ⟨hahead, hk, -⟩ := Cursor.expect_eq_ok_iff.1 hsemi
    refine ⟨h₂ fun u hu => ?_, h₁.cons hahead (by rw [hk]; rfl)⟩
    rw [hahead] at hu
    cases hu
    rw [hk]
    decide

/-- Whether an import declaration ends in the preamble, and if it is a group, its specs too. -/
def ImportDecl.EndsInPreamble (s : Text) (i : ImportDecl) : Prop :=
  Source.EndsInPreamble s i.span.stop ∧ (i.grouped → ∀ spec ∈ i.specs, Source.EndsInPreamble s spec.span.stop)

lemma importDecl_inPreamble {i : ImportDecl} (hc : c.InPreamble s) (hk : c.kind? = some .importWord)
    (h : c.importDecl = .ok (i, c')) : i.EndsInPreamble s ∧ c'.InPreamble s := by
  obtain ⟨ts, d, e, hread, hend, hspan⟩ := importDecl_eq_ok hk h
  have hadvance : c.advance.InPreamble s := hc.advance fun k hk' => by
    rw [hk] at hk'
    cases hk'
    rfl
  have hd : d.InPreamble s := (oneOrGroup_forall (P := fun _ => True) advances_inPreamble
    (fun _ _ _ hd h => ⟨trivial, (importSpec_inPreamble hd h).1⟩)
    (fun _ _ _ hd h => ⟨trivial, (groupedImportSpec_inPreamble hd h).2⟩) hadvance e).2
  have hspecs : i.grouped → ∀ spec ∈ i.specs, EndsInPreamble s spec.span.stop := by
    intro hgrouped
    unfold oneOrGroup at e
    split at e
    · next hparen =>
      obtain ⟨p, e', e⟩ := exists_of_map_eq_ok e
      simp only [Prod.mk.injEq] at e
      rw [← e.1.1]
      exact (untilParen_forall advances_inPreamble (fun _ _ _ hd h => groupedImportSpec_inPreamble hd h)
        (advances_inPreamble.parens _ (.inl hparen) hadvance) e').1
    · obtain ⟨p, e', e⟩ := exists_of_map_eq_ok e
      simp only [Prod.mk.injEq] at e
      rw [← e.1.2] at hgrouped
      cases hgrouped
  have hne : ts ≠ [] := by
    rintro rfl
    have hsize := oneOrGroup_size_le e
    have hlt := Cursor.advance_size_lt hk
    rw [Cursor.size, Cursor.size, hread.ahead, List.nil_append] at hlt
    rw [Cursor.size, Cursor.size] at hsize
    omega
  refine ⟨⟨?_, hspecs⟩, hd.endDeclaration hend⟩
  rw [hspan]
  exact hc.behind hd hread hne hend

lemma imports_inPreamble {is : List ImportDecl} (hc : c.InPreamble s) (h : c.imports = .ok (is, c')) :
    ∀ i ∈ is, i.EndsInPreamble s := by
  fun_induction Cursor.imports c generalizing is with
  | case1 => cases h
  | case2 c hk i d e hlt ih =>
    obtain ⟨hi, hd⟩ := importDecl_inPreamble hc.pastSemis hk e
    obtain ⟨r, e', h⟩ := exists_of_map_eq_ok h
    simp only [Prod.mk.injEq] at h
    obtain ⟨rfl, rfl⟩ := h
    simpa using ⟨hi, ih hd e'⟩
  | case3 =>
    cases h
    simp

/-- **The package clause and the imports end in front of the declarations.** -/
theorem parse_endsInPreamble {tree : Tree} (h : parse s = .ok tree) :
    EndsInPreamble s tree.package.span.stop ∧ ∀ i ∈ tree.imports, i.EndsInPreamble s := by
  obtain ⟨-, -, package, c, is, c', ds, h₁, h₂, h₃, rfl⟩ := parse_eq_ok h
  obtain ⟨k, n, d, hd, hk, hn, hend, rfl⟩ := packageClause_eq_ok h₁
  have hstart : (Cursor.mk 0 (statementTokens s)).pastSemis.InPreamble s := Cursor.InPreamble.pastSemis ⟨[], rfl, by simp⟩
  have hkinds : ∀ t ∈ [k, n], t.kind.isPreamble := by
    simp only [List.mem_cons, List.not_mem_nil, or_false]
    rintro t (rfl | rfl)
    · rw [hk]
      rfl
    · rw [hn]
      rfl
  have hclause : d.InPreamble s := hstart.append hd.ahead hkinds
  have hstop : d.behind = n.stop := hd.behind
  refine ⟨by rw [← hstop]; exact hstart.behind hclause hd (by simp) hend, ?_⟩
  have his := imports_inPreamble (hclause.endDeclaration hend) h₂
  simp only [Tree.withComments, List.mem_map, forall_exists_index, and_imp]
  rintro _ i hi rfl
  exact his i hi

/-- A token in front of the end of the preamble ends in it. -/
lemma EndsInPreamble.of_le (h : EndsInPreamble s n) (ht : t ∈ tokens s) (hs : t.kind.isSignificant) (hle : t.stop ≤ n) :
    EndsInPreamble s t.stop := by
  obtain ⟨L₁, u, L₂, htokens, rfl, husig, hall, hnext⟩ := h
  rw [htokens] at ht
  rcases List.mem_append.1 ht with ht | ht
  · obtain ⟨A, B, rfl⟩ := List.append_of_mem ht
    refine ⟨A, t, B ++ u :: L₂, by rw [htokens]; simp, rfl, hs, fun v hv hvsig => hall v ?_ hvsig, fun v hv hbrace => ?_⟩
    · rw [List.mem_append, List.mem_singleton] at hv
      rcases hv with hv | rfl <;> simp [*]
    · have hv' : v ∈ (A ++ t :: B) ++ [u] := by
        rcases B with _ | ⟨w, B⟩
        · cases hv
          simp
        · cases hv
          simp
      have := hall v hv' (by rw [hbrace]; rfl)
      rw [hbrace] at this
      cases this
  · rcases List.mem_cons.1 ht with rfl | ht
    · exact ⟨L₁, t, L₂, htokens, rfl, husig, hall, hnext⟩
    · -- tokens behind the preamble end behind it
      obtain ⟨A, B, rfl⟩ := List.append_of_mem ht
      have htokens' : tokens s = (L₁ ++ u :: A) ++ t :: B := by rw [htokens]; simp
      have hstop : u.stop ≤ t.start := stop_le_of_tokens_eq htokens' (by simp)
      have hlt : t.start < t.stop := start_lt_stop (by rw [htokens']; simp)
      omega

end RuleWeaver.Source
