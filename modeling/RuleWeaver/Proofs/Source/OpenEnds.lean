import RuleWeaver.Proofs.Source.Heads

/-!
# Files that end inside a declaration

The end of a text ends its last declaration even where no statement ends: behind an operator, say.  Code that is put behind
such a text goes on with that declaration, so one declaration less is read than was put there (`length_decls_lt`).
-/

namespace RuleWeaver.Source

variable {c c₂ : Cursor} {us rest : List Token} {ds es : List Decl}

/-- Whether code is a keyword that declarations begin with. -/
def Lexeme.opensDecl (l : Lexeme) : Bool := l.kind ∈ [.typeWord, .funcWord, .varWord, .constWord]

/-- Whether a token is a keyword that declarations begin with. -/
def Token.opensDecl (t : Token) : Bool := t.lexeme.opensDecl

lemma countP_opensDecl {ts : List Token} : ts.countP Token.opensDecl = (ts.map Token.lexeme).countP Lexeme.opensDecl :=
  List.countP_map.symm

/-- Every declaration begins with a keyword of its own. -/
lemma length_decls_le (h : c.decls = .ok ds) : ds.length ≤ c.ahead.countP Token.opensDecl := by
  fun_induction Cursor.decls c generalizing ds with
  | case1 =>
    cases h
    exact Nat.zero_le _
  | case2 => cases h
  | case3 c hk x c' hread hlt ih =>
    obtain ⟨ds', hrest, rfl⟩ := exists_of_map_eq_ok h
    obtain ⟨f, hkind, hend, -⟩ := Cursor.decl_eq_ok hread
    obtain ⟨t, ts, hreads, hkeyword⟩ := Cursor.declKind_reads hkind
    have hopens : t.opensDecl := decide_eq_true hkeyword
    have hle : (ts ++ f.ahead).countP Token.opensDecl + 1 ≤ c.ahead.countP Token.opensDecl := by
      have := (pastSemis_suffix (c := c)).sublist.countP_le (p := Token.opensDecl)
      rwa [hreads.ahead, List.cons_append, List.countP_cons_of_pos hopens] at this
    have hf := ((endDeclaration_suffix hend).trans (List.suffix_append ts f.ahead)).sublist.countP_le (p := Token.opensDecl)
    have := ih hrest
    rw [List.length_cons]
    omega

/-- The last declaration takes up what is put behind it. -/
lemma length_decls_of_open {kind : DeclKind} {f : Cursor} (hread : c.declKind = .ok (kind, f)) (hf : f.ahead = [])
    (hc₂ : c₂.pastSemis.ahead = us ++ rest) (hus : us.map Token.lexeme = c.ahead.map Token.lexeme)
    (hrest : ∃ t ∈ rest.head?, t.opensDecl) (h : c₂.decls = .ok es) : es.length ≤ rest.countP Token.opensDecl := by
  obtain ⟨r, hr, hopens⟩ := hrest
  obtain ⟨rest, rfl⟩ := List.head?_eq_some_iff.1 hr
  have hsemi : r.kind ≠ .semi := by
    intro hk
    simp [Token.opensDecl, Lexeme.opensDecl, hk] at hopens
  rw [decls_eq] at h
  split at h
  · cases h
    exact Nat.zero_le _
  split at h
  · cases h
  next x c₂' hdecl =>
  obtain ⟨es', hes, rfl⟩ := exists_of_map_eq_ok h
  obtain ⟨f₂, hread₂, hend, -⟩ := Cursor.decl_eq_ok hdecl
  obtain ⟨t, ts, hreads, -⟩ := Cursor.declKind_reads hread₂
  have hahead := hc₂.symm.trans hreads.ahead
  -- it is not read up to the old end
  have hne : f₂.ahead ≠ r :: rest := by
    intro heq
    rcases Cursor.endDeclaration_eq_ok hend with ⟨hnil, -⟩ | ⟨semi, hk, hs, -⟩
    · rw [heq] at hnil
      cases hnil
    · rw [heq] at hs
      rw [(List.cons.inj hs).1] at hsemi
      exact hsemi hk
  obtain ⟨a, ha, hrest⟩ : ∃ a, a ≠ [] ∧ r :: rest = a ++ f₂.ahead := by
    rcases List.append_eq_append_iff.1 hahead with ⟨a, -, ha⟩ | ⟨b, rfl, hb⟩
    · refine ⟨a, ?_, ha⟩
      rintro rfl
      exact hne ha.symm
    · -- nor less far: it would have ended there before
      rcases b with _ | ⟨b, bs⟩
      · exact absurd hb hne
      rcases Cursor.endDeclaration_eq_ok hend with ⟨hnil, -⟩ | ⟨semi, hk, hs, -⟩
      · rw [hb] at hnil
        cases hnil
      have hb' : b.kind = .semi := by
        rw [hb, List.cons_append] at hs
        rw [(List.cons.inj hs).1, hk]
      rw [List.map_append] at hus
      obtain ⟨vs, ws, hc, hvs, hws⟩ := List.map_eq_append_iff.1 hus.symm
      obtain ⟨w, ws, rfl, hw, -⟩ := List.map_eq_cons_iff.1 hws
      obtain ⟨kind', d, hread', hd, -⟩ := exists_declKind hread₂ (hreads.ahead.trans (congrArg _ hb)) hb'
        hb hc hvs ((congrArg Lexeme.kind hw).trans hb')
      rw [hread, Except.ok.injEq, Prod.mk.injEq] at hread'
      rw [← hread'.2, hf] at hd
      cases hd
  -- so the first keyword behind it is lost
  obtain ⟨a', as, rfl⟩ := List.exists_cons_of_ne_nil ha
  obtain ⟨rfl, htail⟩ : r = a' ∧ rest = as ++ f₂.ahead := List.cons.inj hrest
  have hle := length_decls_le hes
  have hsub := ((endDeclaration_suffix hend).trans (List.suffix_append as f₂.ahead)).sublist.countP_le (p := Token.opensDecl)
  rw [List.countP_cons_of_pos hopens, List.length_cons, htail]
  omega

/-- **Declarations that are put behind an open end are not all read.** -/
theorem length_decls_lt (h : c.decls = .ok ds) (hlast : ∃ t ∈ c.ahead.getLast?, t.kind ≠ .semi) (hc₂ : c₂.ahead = us ++ rest)
    (hus : us.map Token.lexeme = c.ahead.map Token.lexeme) (hrest : ∃ t ∈ rest.head?, t.opensDecl) (h₂ : c₂.decls = .ok es) :
    es.length < ds.length + rest.countP Token.opensDecl := by
  fun_induction Cursor.decls c generalizing ds es c₂ us with
  | case1 c hk =>
    obtain ⟨n, ss, hss, hn⟩ := exists_semis c
    have hnil : c.pastSemis.ahead = [] := by simpa [Cursor.kind?] using hk
    obtain ⟨t, ht, hne⟩ := hlast
    have hmem := List.mem_map_of_mem (f := (·.kind)) (List.mem_of_getLast? ht)
    rw [hss, hnil, List.append_nil, hn] at hmem
    exact absurd (List.eq_of_mem_replicate hmem) hne
  | case2 => cases h
  | case3 c hk x c' hread hlt ih =>
    obtain ⟨ds', hds, rfl⟩ := exists_of_map_eq_ok h
    obtain ⟨f, hkind, hend, -⟩ := Cursor.decl_eq_ok hread
    obtain ⟨t, ts, hreads, -⟩ := Cursor.declKind_reads hkind
    obtain ⟨vs, hpast, hvs⟩ := exists_pastSemis (by rw [hreads.ahead]; simp) hc₂ hus
    rw [List.length_cons]
    rcases Cursor.endDeclaration_eq_ok hend with ⟨hnil, -⟩ | ⟨semi, hsemi, hf, -⟩
    · -- the last declaration, which the end of the text ends
      have := length_decls_of_open hkind hnil hpast hvs hrest h₂
      omega
    · have hahead : c.pastSemis.ahead = t :: ts ++ semi :: c'.ahead := by rw [hreads.ahead, hf]
      rw [hahead, List.map_append] at hvs
      obtain ⟨ts₂, us₂, rfl, hts₂, hus₂⟩ := List.map_eq_append_iff.1 hvs
      obtain ⟨v, us', rfl, hv, hus'⟩ := List.map_eq_cons_iff.1 hus₂
      rw [List.append_assoc, List.cons_append] at hpast
      obtain ⟨x₂, d₂, hd₂, hdecls, -⟩ := decls_of_declKind hkind hahead hsemi hf hpast hts₂ ((congrArg Lexeme.kind hv).trans hsemi)
      rw [← decls_pastSemis, hdecls] at h₂
      obtain ⟨es', hes, rfl⟩ := exists_of_map_eq_ok h₂
      have hlast' : ∃ u ∈ c'.ahead.getLast?, u.kind ≠ .semi := by
        obtain ⟨u, hu, hne⟩ := hlast
        obtain ⟨n, ss, hss, -⟩ := exists_semis c
        rw [hss, hahead, List.getLast?_append, List.getLast?_append, List.getLast?_cons] at hu
        cases hc' : c'.ahead.getLast? with
        | none =>
          rw [hc'] at hu
          cases hu
          exact absurd hsemi hne
        | some w =>
          rw [hc'] at hu
          cases hu
          exact ⟨w, rfl, hne⟩
      have := ih hds hlast' hd₂ hus' hes
      rw [List.length_cons]
      omega

end RuleWeaver.Source
