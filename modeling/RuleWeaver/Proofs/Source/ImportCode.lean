import Mathlib.Data.List.TakeWhile
import RuleWeaver.Proofs.Source.Files

/-!
# The code of imports

Which classes of tokens imports are made of (`IsImportCode`).  Imports that are read are such code, and such code is read as
imports whatever follows.  Code of imports stays code of imports when an import is added: to a group, behind a path or in
front of everything else, or behind an import.
-/

namespace RuleWeaver.Source

variable {c c' : Cursor} {ts us vs rest : List Token} {t o w : Token} {K L M G : List Kind} {k p n : Kind} {goal : Goal}

/-! ### Classes -/

/-- Whether import paths are tokens of the class. -/
def Kind.isPath (k : Kind) : Bool := k = .string || k = .rawString

lemma isPath_iff : k.isPath ↔ k = .string ∨ k = .rawString := by
  simp [Kind.isPath]

/-- An import path with the name in front of it, if any. -/
inductive IsSpecCode : List Kind → Prop
  | plain {p : Kind} (hp : p.isPath) : IsSpecCode [p]
  | named {n p : Kind} (hn : n = .ident ∨ n = .dot) (hp : p.isPath) : IsSpecCode [n, p]

/-- What stands in a group of imports, with the parenthesis that closes it. -/
inductive IsGroupCode : List Kind → Prop
  | close : IsGroupCode [.rparen]
  | semi {L : List Kind} (h : IsGroupCode L) : IsGroupCode (.semi :: L)
  | last {L : List Kind} (hL : IsSpecCode L) : IsGroupCode (L ++ [.rparen])
  | spec {L M : List Kind} (hL : IsSpecCode L) (h : IsGroupCode M) : IsGroupCode (L ++ .semi :: M)

/-- Import declarations with the statement ends in front of them and the one behind. -/
inductive IsImportCode : List Kind → Prop
  | nil : IsImportCode []
  | semi {L : List Kind} (hL : L ≠ []) (h : IsImportCode L) : IsImportCode (.semi :: L)
  | one {L M : List Kind} (hL : IsSpecCode L) (h : IsImportCode M) : IsImportCode (.importWord :: (L ++ .semi :: M))
  | group {G M : List Kind} (hG : IsGroupCode G) (h : IsImportCode M) :
      IsImportCode (.importWord :: .lparen :: (G ++ .semi :: M))

lemma IsSpecCode.exists_cons (h : IsSpecCode L) :
    ∃ k K, L = k :: K ∧ k ≠ .semi ∧ k ≠ .rparen ∧ k ≠ .lparen ∧ k ≠ .importWord := by
  have path : ∀ {p : Kind}, p.isPath → p ≠ .semi ∧ p ≠ .rparen ∧ p ≠ .lparen ∧ p ≠ .importWord := by
    intro p hp
    rcases isPath_iff.1 hp with rfl | rfl <;> decide
  cases h with
  | plain hp => exact ⟨_, _, rfl, path hp⟩
  | named hn hp => rcases hn with rfl | rfl <;> exact ⟨_, _, rfl, by decide⟩

namespace IsGroupCode

lemma semis (n : ℕ) (h : IsGroupCode L) : IsGroupCode (List.replicate n .semi ++ L) := by
  induction n with
  | zero => exact h
  | succ n ih => exact .semi ih

/-- A group ends in a parenthesis. -/
lemma exists_concat (h : IsGroupCode L) : ∃ K, L = K ++ [.rparen] := by
  induction h with
  | close => exact ⟨[], rfl⟩
  | semi _ ih =>
    obtain ⟨K, rfl⟩ := ih
    exact ⟨.semi :: K, rfl⟩
  | last => exact ⟨_, rfl⟩
  | @spec L M _ _ ih =>
    obtain ⟨K, rfl⟩ := ih
    exact ⟨L ++ .semi :: K, by simp⟩

lemma eq_close (h : IsGroupCode (.rparen :: L)) : L = [] := by
  generalize hK : Kind.rparen :: L = K at h
  cases h with
  | close => exact (List.cons.inj hK).2
  | semi => cases hK
  | last hL | spec hL =>
    obtain ⟨k, K, rfl, -, hk, -⟩ := hL.exists_cons
    exact absurd (List.cons.inj hK).1.symm hk

end IsGroupCode

/-! ### Reading -/

lemma IsSpecCode.read (h : IsSpecCode L) (hc : c.ahead = ts ++ rest) (hts : ts.map (·.kind) = L) :
    ∃ s c', c.importSpec = .ok (s, c') ∧ c'.ahead = rest := by
  cases h with
  | plain hp =>
    obtain ⟨t, rfl, rfl⟩ := List.map_eq_singleton_iff.1 hts
    exact ⟨_, ⟨t.stop, rest⟩, Cursor.importSpec_eq_ok_iff.2 ⟨t, isPath_iff.1 hp, rfl, .inl ⟨hc, rfl⟩⟩, rfl⟩
  | named hn hp =>
    obtain ⟨u, us, rfl, rfl, hus⟩ := List.map_eq_cons_iff.1 hts
    obtain ⟨t, rfl, rfl⟩ := List.map_eq_singleton_iff.1 hus
    exact ⟨_, ⟨t.stop, rest⟩, Cursor.importSpec_eq_ok_iff.2 ⟨t, isPath_iff.1 hp, rfl, .inr ⟨u, hn, hc, rfl⟩⟩, rfl⟩

/-- Statement ends in front are left out. -/
lemma pastSemis_ahead (hc : c.ahead = ts) : c.pastSemis.ahead = ts.dropWhile (·.kind = .semi) := by
  rw [Cursor.pastSemis, hc]

lemma dropWhile_of_kinds (hts : ts.map (·.kind) = k :: K) (hk : k ≠ .semi) :
    (ts ++ rest).dropWhile (·.kind = .semi) = ts ++ rest := by
  obtain ⟨t, us, rfl, rfl, -⟩ := List.map_eq_cons_iff.1 hts
  exact List.dropWhile_cons_of_neg (by simpa using hk)

lemma kind?_of_kinds (hc : c.ahead = ts ++ rest) (hts : ts.map (·.kind) = k :: K) : c.kind? = some k := by
  obtain ⟨t, us, rfl, rfl, -⟩ := List.map_eq_cons_iff.1 hts
  rw [Cursor.kind?, hc]
  rfl

lemma IsGroupCode.read (h : IsGroupCode L) (hts : ts.map (·.kind) = L)
    (hc : c.pastSemis.ahead = (ts ++ rest).dropWhile (·.kind = .semi)) :
    ∃ specs c', groupedImportItem.untilParen goal c = .ok (specs, c') ∧ c'.ahead = rest := by
  induction h generalizing c ts with
  | close =>
    rw [dropWhile_of_kinds hts (by decide)] at hc
    refine ⟨[], c.pastSemis.advance, untilParen_of_rparen (kind?_of_kinds hc hts), ?_⟩
    obtain ⟨t, rfl, -⟩ := List.map_eq_singleton_iff.1 hts
    rw [Cursor.advance, hc]
    rfl
  | semi h ih =>
    obtain ⟨t, us, rfl, ht, hus⟩ := List.map_eq_cons_iff.1 hts
    refine ih hus ?_
    rw [hc, List.cons_append, List.dropWhile_cons_of_pos (by simpa using ht)]
  | last hL =>
    obtain ⟨us, vs, rfl, hus, hvs⟩ := List.map_eq_append_iff.1 hts
    obtain ⟨k, K, rfl, hsemi, hparen, -⟩ := hL.exists_cons
    rw [List.append_assoc, dropWhile_of_kinds hus hsemi] at hc
    obtain ⟨spec, d, hread, hd⟩ := hL.read hc hus
    have hclose : d.kind? = some .rparen := kind?_of_kinds hd hvs
    obtain ⟨t, rfl, ht⟩ := List.map_eq_singleton_iff.1 hvs
    have hpast : d.pastSemis = d := pastSemis_eq_self hd (by rw [ht]; decide)
    have hspec : groupedImportItem.read c.pastSemis = .ok (spec, d) :=
      Cursor.groupedImportSpec_eq_ok_iff.2 ⟨d, hread, .inl ⟨hclose, rfl⟩⟩
    refine ⟨[spec], d.advance, ?_, by rw [Cursor.advance, hd]; rfl⟩
    rw [untilParen_of_read (kind?_of_kinds hc hus) hparen hspec, untilParen_of_rparen (by rw [hpast]; exact hclose), hpast]
    rfl
  | spec hL h ih =>
    obtain ⟨us, vs, rfl, hus, hvs⟩ := List.map_eq_append_iff.1 hts
    obtain ⟨t, vs, rfl, ht, hvs⟩ := List.map_eq_cons_iff.1 hvs
    obtain ⟨k, K, rfl, hsemi, hparen, -⟩ := hL.exists_cons
    rw [List.append_assoc, dropWhile_of_kinds hus hsemi] at hc
    obtain ⟨spec, d, hread, hd⟩ := hL.read hc hus
    have hspec : groupedImportItem.read c.pastSemis = .ok (spec, ⟨t.stop, vs ++ rest⟩) := by
      have hkind : d.kind? ≠ some .rparen := by
        rw [Cursor.kind?, hd]
        simp [ht]
      exact Cursor.groupedImportSpec_eq_ok_iff.2 ⟨d, hread, .inr ⟨hkind, t, Cursor.expect_eq_ok_iff.2 ⟨hd, ht, rfl⟩⟩⟩
    obtain ⟨specs, c', hrest, hc'⟩ := ih (c := ⟨t.stop, vs ++ rest⟩) hvs rfl
    refine ⟨spec :: specs, c', ?_, hc'⟩
    rw [untilParen_of_read (kind?_of_kinds hc hus) hparen hspec, hrest]
    rfl

lemma imports_of_read {d : Cursor} {r : List ImportSpec × Bool} (hk : c.pastSemis.kind? = some .importWord)
    (hread : oneOrGroup importItem groupedImportItem .importGroupEnd c.pastSemis.advance = .ok (r, d)) (hd : d.ahead = t :: us)
    (ht : t.kind = .semi) (hrest : ∃ (is : List ImportDecl) (c' : Cursor), c'.ahead = rest ∧
      (Cursor.mk t.stop us).imports = c'.imports.map fun (js, d) => (is ++ js, d)) :
    ∃ (is : List ImportDecl) (c' : Cursor), c'.ahead = rest ∧ c.imports = c'.imports.map fun (js, d) => (is ++ js, d) := by
  obtain ⟨is, c', hc', his⟩ := hrest
  have hdecl : c.pastSemis.importDecl = .ok (⟨r.1, ⟨c.pastSemis.start, d.behind⟩, c.pastSemis.start, r.2⟩, ⟨t.stop, us⟩) :=
    Cursor.importDecl_eq_ok_iff.2 ⟨r.1, r.2, d, hread, Cursor.endDeclaration_of_semi hd ht, rfl⟩
  refine ⟨⟨r.1, ⟨c.pastSemis.start, d.behind⟩, c.pastSemis.start, r.2⟩ :: is, c', hc', ?_⟩
  rw [imports_of_importDecl hk hdecl, his]
  cases c'.imports <;> rfl

/-- Code of imports is read as imports, in front of whatever follows. -/
lemma IsImportCode.read (h : IsImportCode L) (hts : ts.map (·.kind) = L) (hnil : L = [] → c.ahead = rest)
    (hc : c.pastSemis.ahead = (ts ++ rest).dropWhile (·.kind = .semi)) :
    ∃ (is : List ImportDecl) (c' : Cursor), c'.ahead = rest ∧ c.imports = c'.imports.map fun (js, d) => (is ++ js, d) := by
  induction h generalizing c ts with
  | nil =>
    refine ⟨[], c, hnil rfl, ?_⟩
    cases c.imports <;> rfl
  | semi hL h ih =>
    obtain ⟨t, us, rfl, ht, hus⟩ := List.map_eq_cons_iff.1 hts
    refine ih hus (fun h => absurd h hL) ?_
    rw [hc, List.cons_append, List.dropWhile_cons_of_pos (by simpa using ht)]
  | one hL h ih =>
    obtain ⟨w, xs, rfl, hw, hxs⟩ := List.map_eq_cons_iff.1 hts
    obtain ⟨us, vs, rfl, hus, hvs⟩ := List.map_eq_append_iff.1 hxs
    obtain ⟨t, vs, rfl, ht, hvs⟩ := List.map_eq_cons_iff.1 hvs
    rw [List.cons_append, List.dropWhile_cons_of_neg (by simp [hw])] at hc
    have hk : c.pastSemis.kind? = some .importWord := by
      rw [Cursor.kind?, hc]
      simp [hw]
    have hadvance : c.pastSemis.advance.ahead = us ++ (t :: vs ++ rest) := by
      rw [Cursor.advance, hc]
      simp
    obtain ⟨spec, d, hread, hd⟩ := hL.read hadvance hus
    obtain ⟨k, K, rfl, -, -, hparen, -⟩ := hL.exists_cons
    have hkind : c.pastSemis.advance.kind? ≠ some .lparen := by
      rw [kind?_of_kinds hadvance hus]
      simpa using hparen
    have hone : oneOrGroup importItem groupedImportItem .importGroupEnd c.pastSemis.advance = .ok (([spec], false), d) := by
      rw [oneOrGroup, if_neg hkind]
      simp only [importItem, hread]
      rfl
    refine imports_of_read hk hone hd ht (ih (c := ⟨t.stop, vs ++ rest⟩) hvs ?_ rfl)
    rintro rfl
    obtain rfl := List.map_eq_nil_iff.1 hvs
    rfl
  | group hG h ih =>
    obtain ⟨w, xs, rfl, hw, hxs⟩ := List.map_eq_cons_iff.1 hts
    obtain ⟨o, ys, rfl, ho, hys⟩ := List.map_eq_cons_iff.1 hxs
    obtain ⟨us, vs, rfl, hus, hvs⟩ := List.map_eq_append_iff.1 hys
    obtain ⟨t, vs, rfl, ht, hvs⟩ := List.map_eq_cons_iff.1 hvs
    rw [List.cons_append, List.dropWhile_cons_of_neg (by simp [hw])] at hc
    have hk : c.pastSemis.kind? = some .importWord := by
      rw [Cursor.kind?, hc]
      simp [hw]
    have hadvance : c.pastSemis.advance.ahead = o :: (us ++ (t :: vs ++ rest)) := by
      rw [Cursor.advance, hc]
      simp
    obtain ⟨specs, d, hread, hd⟩ := hG.read (c := c.pastSemis.advance.advance) hus
      (pastSemis_ahead (by rw [Cursor.advance, hadvance]))
    have hkind : c.pastSemis.advance.kind? = some .lparen := by
      rw [Cursor.kind?, hadvance]
      simp [ho]
    have hgroup : oneOrGroup importItem groupedImportItem .importGroupEnd c.pastSemis.advance = .ok ((specs, true), d) := by
      rw [oneOrGroup, if_pos hkind, hread]
      rfl
    refine imports_of_read hk hgroup hd ht (ih (c := ⟨t.stop, vs ++ rest⟩) hvs ?_ rfl)
    rintro rfl
    obtain rfl := List.map_eq_nil_iff.1 hvs
    rfl

/-! ### What is read -/

lemma exists_specCode {s : ImportSpec} (h : c.importSpec = .ok (s, c')) : ∃ us t, c.ahead = us ++ t :: c'.ahead ∧
    IsSpecCode ((us ++ [t]).map (·.kind)) ∧ t.kind.isPath ∧ t.stop = s.span.stop ∧ c'.behind = t.stop := by
  obtain ⟨t, hpath, hbehind, ⟨hahead, rfl⟩ | ⟨u, hname, hahead, rfl⟩⟩ := Cursor.importSpec_eq_ok_iff.1 h
  · exact ⟨[], t, hahead, .plain (isPath_iff.2 hpath), isPath_iff.2 hpath, rfl, hbehind⟩
  · exact ⟨[u], t, hahead, .named hname (isPath_iff.2 hpath), isPath_iff.2 hpath, rfl, hbehind⟩

/-- The statement ends in front of a cursor. -/
lemma exists_semis (c : Cursor) : ∃ (n : ℕ) (ts : List Token), c.ahead = ts ++ c.pastSemis.ahead ∧
    ts.map (·.kind) = List.replicate n .semi := by
  refine ⟨(c.ahead.takeWhile (·.kind = .semi)).length, c.ahead.takeWhile (·.kind = .semi),
    (List.takeWhile_append_dropWhile).symm, ?_⟩
  rw [List.eq_replicate_iff, List.length_map]
  refine ⟨rfl, fun k hk => ?_⟩
  obtain ⟨t, ht, rfl⟩ := List.mem_map.1 hk
  have hsemi := List.mem_takeWhile_imp ht
  simpa using hsemi

/-- Whether tokens are what is read of a group of imports: where it may gain one. -/
structure GroupRead (ts : List Token) (specs : List ImportSpec) : Prop where
  code : IsGroupCode (ts.map (·.kind))
  last : ∀ spec ∈ specs.getLast?, ∃ us t vs, ts = us ++ t :: vs ∧ t.stop = spec.span.stop ∧ t.kind.isPath ∧
    ∀ p : Kind, p.isPath → IsGroupCode (us.map (·.kind) ++ t.kind :: .semi :: p :: vs.map (·.kind))
  empty : specs = [] → ∃ n, ts.map (·.kind) = List.replicate n .semi ++ [.rparen]

namespace GroupRead

variable {spec : ImportSpec} {specs : List ImportSpec} {semi paren : Token}

lemma close (ht : t.kind = .rparen) : GroupRead [t] [] where
  code := by
    rw [List.map_singleton, ht]
    exact .close
  last := by simp
  empty _ := ⟨0, by rw [List.map_singleton, ht]; rfl⟩

/-- A path in front of the closing parenthesis. -/
lemma single (hcode : IsSpecCode ((us ++ [t]).map (·.kind))) (ht : t.kind.isPath) (hstop : t.stop = spec.span.stop)
    (hparen : paren.kind = .rparen) : GroupRead (us ++ [t, paren]) [spec] where
  code := by
    have := IsGroupCode.last hcode
    simpa [hparen] using this
  last := by
    rintro _ ⟨⟩
    refine ⟨us, t, [paren], rfl, hstop, ht, fun p hp => ?_⟩
    have := IsGroupCode.spec hcode (.last (.plain hp))
    simpa [hparen] using this
  empty h := by cases h

/-- A path with a statement end behind it, in front of what else stands in the group. -/
lemma cons (hcode : IsSpecCode ((us ++ [t]).map (·.kind))) (ht : t.kind.isPath) (hstop : t.stop = spec.span.stop)
    (hsemi : semi.kind = .semi) (h : GroupRead ts specs) : GroupRead (us ++ t :: semi :: ts) (spec :: specs) where
  code := by
    have := IsGroupCode.spec hcode h.code
    simpa [hsemi] using this
  last := by
    intro x hx
    rcases List.eq_nil_or_concat specs with rfl | ⟨specs, y, rfl⟩
    · cases hx
      refine ⟨us, t, semi :: ts, rfl, hstop, ht, fun p hp => ?_⟩
      have := IsGroupCode.spec hcode (.spec (.plain hp) h.code)
      simpa [hsemi] using this
    · rw [List.concat_eq_append, ← List.cons_append, List.getLast?_concat] at hx
      cases hx
      obtain ⟨us', t', vs', rfl, hstop', ht', hinsert⟩ := h.last x (by simp)
      refine ⟨us ++ t :: semi :: us', t', vs', by simp, hstop', ht', fun p hp => ?_⟩
      have := IsGroupCode.spec hcode (hinsert p hp)
      simpa [hsemi] using this
  empty h := by cases h

lemma semis {n : ℕ} (hus : us.map (·.kind) = List.replicate n .semi) (h : GroupRead ts specs) : GroupRead (us ++ ts) specs where
  code := by
    rw [List.map_append, hus]
    exact .semis n h.code
  last := by
    intro x hx
    obtain ⟨us', t, vs, rfl, hstop, ht, hinsert⟩ := h.last x hx
    refine ⟨us ++ us', t, vs, by simp, hstop, ht, fun p hp => ?_⟩
    rw [List.map_append, hus, List.append_assoc]
    exact .semis n (hinsert p hp)
  empty hspecs := by
    obtain ⟨m, hm⟩ := h.empty hspecs
    exact ⟨n + m, by rw [List.map_append, hus, hm, List.replicate_add, List.append_assoc]⟩

/-- Nothing is read behind a parenthesis. -/
lemma of_rparen (h : GroupRead (t :: ts) specs) (ht : t.kind = .rparen) : ts = [] ∧ specs = [] := by
  obtain rfl : ts = [] := by
    have := h.code
    rw [List.map_cons, ht] at this
    exact List.map_eq_nil_iff.1 this.eq_close
  rcases List.eq_nil_or_concat specs with rfl | ⟨specs, x, rfl⟩
  · exact ⟨rfl, rfl⟩
  · obtain ⟨us, u, vs, hu, -, hpath, -⟩ := h.last x (by simp)
    obtain rfl : u = t := by
      have : u ∈ [t] := by simp [hu]
      exact List.mem_singleton.1 this
    rw [ht] at hpath
    cases hpath

end GroupRead

lemma exists_groupRead {specs : List ImportSpec} (h : groupedImportItem.untilParen goal c = .ok (specs, c')) :
    ∃ ts, c.ahead = ts ++ c'.ahead ∧ GroupRead ts specs := by
  fun_induction groupedImportItem.untilParen goal c generalizing specs with
  | case1 => exact absurd h Cursor.unmet_ne_ok
  | case2 c hk =>
    cases h
    obtain ⟨n, ss, hss, hn⟩ := exists_semis c
    obtain ⟨t, ts, hc, ht⟩ := Cursor.kind?_eq_some hk
    refine ⟨ss ++ [t], ?_, (GroupRead.close ht).semis hn⟩
    rw [hss, hc, Cursor.advance, hc]
    simp
  | case3 => cases h
  | case4 c k hparen hk spec d hread hlt ih =>
    obtain ⟨⟨specs', d'⟩, hrest, h⟩ := exists_of_map_eq_ok h
    simp only [Prod.mk.injEq] at h
    obtain ⟨rfl, rfl⟩ := h
    obtain ⟨vs, hvs, hgroup⟩ := ih hrest
    obtain ⟨n, ss, hss, hn⟩ := exists_semis c
    obtain ⟨d₁, hspec, hbehind⟩ := Cursor.groupedImportSpec_eq_ok_iff.1 hread
    obtain ⟨us, t, hus, hcode, hpath, hstop, -⟩ := exists_specCode hspec
    rcases hbehind with ⟨hclose, rfl⟩ | ⟨-, semi, hsemi⟩
    · -- the group ends behind the path
      obtain ⟨v, rest, hrest, hv⟩ := Cursor.kind?_eq_some hclose
      obtain ⟨K, hK⟩ := hgroup.code.exists_concat
      obtain ⟨vs, rfl⟩ : ∃ vs', vs = v :: vs' := by
        rcases vs with _ | ⟨v', vs'⟩
        · simp at hK
        · exact ⟨vs', by rw [(List.cons.inj (hrest.symm.trans hvs)).1]⟩
      obtain ⟨rfl, rfl⟩ := hgroup.of_rparen hv
      refine ⟨ss ++ (us ++ [t, v]), ?_, (GroupRead.single hcode hpath hstop hv).semis hn⟩
      rw [hss, hus, hvs]
      simp
    · -- a statement end stands behind the path
      obtain ⟨hahead, hkind, -⟩ := Cursor.expect_eq_ok_iff.1 hsemi
      refine ⟨ss ++ (us ++ t :: semi :: vs), ?_, (hgroup.cons hcode hpath hstop hkind).semis hn⟩
      rw [hss, hus, hahead, hvs]
      simp

/-- Whether tokens are what is read as imports: where they may gain one. -/
structure ImportsRead (ts : List Token) (is : List ImportDecl) : Prop where
  code : IsImportCode (ts.map (·.kind))
  empty : is = [] → ts = []
  last : ∀ i ∈ is.getLast?, ∃ us t semi, ts = us ++ [t, semi] ∧ t.stop = i.span.stop ∧ t.kind.endsStatement ∧ semi.kind = .semi
  groups : ∀ i ∈ is, i.grouped → ∃ us w o G vs, ts = us ++ w :: o :: (G ++ vs) ∧ w.start = i.span.start ∧
    w.kind = .importWord ∧ o.kind = .lparen ∧ (∀ t ∈ G.getLast?, t.stop = i.span.stop) ∧ GroupRead G i.specs ∧
    ∀ L, IsGroupCode L → IsImportCode (us.map (·.kind) ++ .importWord :: .lparen :: (L ++ vs.map (·.kind)))

lemma endsStatement_of_isPath (h : k.isPath) : k.endsStatement := by
  rcases isPath_iff.1 h with rfl | rfl <;> rfl

namespace IsImportCode

/-- Imports end in a statement end. -/
lemma exists_concat (h : IsImportCode L) (hL : L ≠ []) : ∃ K, L = K ++ [.semi] := by
  have behind : ∀ {M : List Kind}, (M ≠ [] → ∃ K, M = K ++ [.semi]) → ∀ X : List Kind, ∃ K, X ++ .semi :: M = K ++ [.semi] := by
    intro M ih X
    by_cases hM : M = []
    · exact ⟨X, by rw [hM]⟩
    · obtain ⟨K, rfl⟩ := ih hM
      exact ⟨X ++ .semi :: K, by simp⟩
  induction h with
  | nil => exact absurd rfl hL
  | semi hL' h ih =>
    obtain ⟨K, rfl⟩ := ih hL'
    exact ⟨.semi :: K, rfl⟩
  | @one L M hL' h ih => exact behind ih (.importWord :: L)
  | @group G M hG h ih => exact behind ih (.importWord :: .lparen :: G)

lemma append (h : IsImportCode L) (h' : IsImportCode M) : IsImportCode (L ++ M) := by
  induction h with
  | nil => exact h'
  | semi hL _ ih => exact .semi (by simp [hL]) ih
  | one hL _ ih =>
    have := IsImportCode.one hL ih
    simpa using this
  | group hG _ ih =>
    have := IsImportCode.group hG ih
    simpa using this

lemma semis (n : ℕ) (hL : L ≠ []) (h : IsImportCode L) : IsImportCode (List.replicate n .semi ++ L) := by
  induction n with
  | zero => exact h
  | succ n ih =>
    refine .semi ?_ ih
    simp [hL]

end IsImportCode

/-- An import that is read: its tokens, and what it may be replaced by. -/
lemma exists_importDecl {i : ImportDecl} (hk : c.kind? = some .importWord) (h : c.importDecl = .ok (i, c')) :
    ∃ (w : Token) (us : List Token) (t : Token) (d : Cursor), c.ahead = w :: (us ++ t :: d.ahead) ∧ d.endDeclaration = .ok c' ∧ w.kind = .importWord ∧ w.start = i.span.start ∧
      t.stop = i.span.stop ∧ t.kind.endsStatement ∧
      (∀ M, IsImportCode M → IsImportCode (.importWord :: ((us ++ [t]).map (·.kind) ++ .semi :: M))) ∧
      (i.grouped → ∃ o G, us ++ [t] = o :: G ∧ o.kind = .lparen ∧ GroupRead G i.specs) := by
  obtain ⟨-, d, hread, -, hend, hspan⟩ := importDecl_eq_ok hk h
  obtain ⟨w, ws, hw, hkind⟩ := Cursor.kind?_eq_some hk
  have hadvance : c.advance.ahead = ws := by rw [Cursor.advance, hw]
  have hstart : w.start = i.span.start := by
    rw [hspan, Cursor.start, hw]
    rfl
  unfold oneOrGroup at hread
  split at hread
  · next hparen =>
    obtain ⟨⟨specs, d'⟩, hspecs, hread⟩ := exists_of_map_eq_ok hread
    simp only [Prod.mk.injEq] at hread
    obtain ⟨⟨rfl, -⟩, rfl⟩ := hread
    obtain ⟨o, os, ho, hokind⟩ := Cursor.kind?_eq_some hparen
    have hadvance' : c.advance.advance.ahead = os := by rw [Cursor.advance, ho]
    obtain ⟨G, hG, hgroup⟩ := exists_groupRead hspecs
    obtain ⟨f, close, hpass, hf, hclose, hbehind⟩ :=
      Cursor.untilParen_eq_ok (fun _ _ _ h => groupedImportItem_passes h) hspecs
    obtain ⟨us, rfl⟩ : ∃ us, G = us ++ [close] := by
      obtain ⟨us, hus⟩ := hpass.suffix
      rw [hf, hG, ← List.singleton_append, ← List.append_assoc] at hus
      exact ⟨us, (List.append_cancel_right hus).symm⟩
    refine ⟨w, o :: us, close, d', ?_, hend, hkind, hstart, by rw [hspan, hbehind], by rw [hclose]; rfl, fun M hM => ?_, fun _ =>
      ⟨o, us ++ [close], rfl, hokind, hgroup⟩⟩
    · rw [hw, ← hadvance, ho, ← hadvance', hG]
      simp
    · rw [List.cons_append, List.map_cons, hokind]
      exact .group hgroup.code hM
  · next hparen =>
    obtain ⟨⟨spec, d'⟩, hspec, hread⟩ := exists_of_map_eq_ok hread
    simp only [Prod.mk.injEq] at hread
    obtain ⟨⟨-, hgrouped⟩, rfl⟩ := hread
    obtain ⟨us, t, hus, hcode, hpath, -, hbehind⟩ := exists_specCode (s := spec) hspec
    refine ⟨w, us, t, d', ?_, hend, hkind, hstart, by rw [hspan, hbehind], endsStatement_of_isPath hpath, fun M hM => .one hcode hM,
      fun h => ?_⟩
    · rw [hw, ← hadvance, hus]
    · rw [← hgrouped] at h
      cases h

/-- **Imports that are read.** -/
theorem exists_importsRead {is : List ImportDecl} (h : c.imports = .ok (is, c'))
    (hlast : ∀ t ∈ c.ahead.getLast?, t.kind.endsStatement = false) : ∃ ts, c.ahead = ts ++ c'.ahead ∧ ImportsRead ts is := by
  fun_induction Cursor.imports c generalizing is with
  | case1 => cases h
  | case2 c hk i d hread hlt ih =>
    obtain ⟨⟨is', d'⟩, hrest, h⟩ := exists_of_map_eq_ok h
    simp only [Prod.mk.injEq] at h
    obtain ⟨rfl, rfl⟩ := h
    obtain ⟨n, ss, hss, hn⟩ := exists_semis c
    obtain ⟨w, us, t, f, hc, hend, hw, hstart, hstop, ht, hcode, hgrouped⟩ := exists_importDecl hk hread
    -- a statement end stands behind it
    obtain ⟨semi, hsemi, hf⟩ : ∃ semi, semi.kind = .semi ∧ f.ahead = semi :: d.ahead := by
      rcases Cursor.endDeclaration_eq_ok hend with ⟨hnil, -⟩ | ⟨semi, hsemi, hf, -⟩
      · have hend := hlast t (by rw [hss, hc, hnil, ← List.cons_append, ← List.append_assoc, List.getLast?_concat]; rfl)
        rw [ht] at hend
        cases hend
      · exact ⟨semi, hsemi, hf⟩
    have hahead : c.ahead = (ss ++ w :: (us ++ [t, semi])) ++ d.ahead := by
      rw [hss, hc, hf]
      simp
    obtain ⟨vs, hvs, hrestRead⟩ := ih hrest fun u hu => hlast u (by
      rw [hahead, List.getLast?_append, Option.mem_def.1 hu]
      rfl)
    have hkinds : (ss ++ w :: (us ++ t :: semi :: vs)).map (·.kind) =
        List.replicate n .semi ++ .importWord :: ((us ++ [t]).map (·.kind) ++ .semi :: vs.map (·.kind)) := by
      simp [hn, hw, hsemi]
    refine ⟨ss ++ w :: (us ++ t :: semi :: vs), by rw [hahead, hvs]; simp, ?_, by simp, ?_, ?_⟩
    · rw [hkinds]
      exact .semis n (List.cons_ne_nil _ _) (hcode _ hrestRead.code)
    · intro x hx
      rcases List.eq_nil_or_concat is' with rfl | ⟨is', y, rfl⟩
      · cases hx
        obtain rfl := hrestRead.empty rfl
        exact ⟨ss ++ w :: us, t, semi, by simp, hstop, ht, hsemi⟩
      · rw [List.concat_eq_append, ← List.cons_append, List.getLast?_concat] at hx
        cases hx
        obtain ⟨us', t', semi', rfl, h⟩ := hrestRead.last x (by simp)
        exact ⟨ss ++ w :: (us ++ t :: semi :: us'), t', semi', by simp, h⟩
    · intro x hx hgroup
      rcases List.mem_cons.1 hx with rfl | hx
      · obtain ⟨o, G, hG, ho, hread⟩ := hgrouped hgroup
        refine ⟨ss, w, o, G, semi :: vs, ?_, hstart, hw, ho, fun r hr => ?_, hread, fun L hL => ?_⟩
        · rw [← List.singleton_append (x := t), ← List.append_assoc us, hG]
          simp
        · have hrt := congrArg List.getLast? hG
          rw [List.getLast?_concat, List.getLast?_cons, Option.mem_def.1 hr, Option.some.injEq] at hrt
          rw [← hstop, hrt]
          rfl
        · have := IsImportCode.semis n (List.cons_ne_nil _ _) (.group hL hrestRead.code)
          simpa [hn, hsemi] using this
      · obtain ⟨us', w', o, G, vs', rfl, hstart', hw', ho, hstop', hread, hinsert⟩ := hrestRead.groups x hx hgroup
        refine ⟨ss ++ w :: (us ++ t :: semi :: us'), w', o, G, vs', by simp, hstart', hw', ho, hstop', hread, fun L hL => ?_⟩
        have := IsImportCode.semis n (List.cons_ne_nil _ _) (hcode _ (hinsert L hL))
        simpa [hn, hw, hsemi] using this
  | case3 c =>
    cases h
    exact ⟨[], rfl, .nil, fun _ => rfl, by simp, by simp⟩

end RuleWeaver.Source
