import RuleWeaver.Proofs.Source.Locality
import RuleWeaver.Proofs.Source.Sections

/-!
# Where statement ends stand

A tree does not tell where statements end, only that they do.  Tokens that differ in that alone are twins (`Token.Twin`):
from twins the same imports and the same declarations are read, with all their offsets (`file_of_twins`).
-/

namespace RuleWeaver.Source

variable {α : Type} {t u o o' close close' : Token} {ts us vs L L' inner inner' rest rest' : List Token} {c c' d d' : Cursor}
  {k : Kind} {n : Nat} {goal : Goal}

/-! ### Twins -/

/-- Whether two tokens are the same, but for the offset if they end a statement. -/
def Token.Twin (t u : Token) : Prop := t.lexeme = u.lexeme ∧ (t.kind ≠ .semi → t = u)

/-- Whether tokens are twins one by one. -/
def Twins (ts us : List Token) : Prop := List.Forall₂ Token.Twin ts us

/-- Whether two cursors are in front of twins. -/
def Cursor.Twin (c d : Cursor) : Prop := Twins c.ahead d.ahead

lemma Token.Twin.refl (t : Token) : t.Twin t := ⟨rfl, fun _ => rfl⟩

lemma Token.Twin.kind (h : t.Twin u) : u.kind = t.kind := congrArg Lexeme.kind h.1.symm

namespace Twins

lemma lexemes (h : Twins ts us) : us.map Token.lexeme = ts.map Token.lexeme := by
  induction h with
  | nil => rfl
  | cons h _ ih => rw [List.map_cons, List.map_cons, h.1, ih]

lemma kinds (h : Twins ts us) : ts.map (·.kind) = us.map (·.kind) := by
  induction h with
  | nil => rfl
  | cons h _ ih => rw [List.map_cons, List.map_cons, h.kind, ih]

/-- Twins are cut where their twins are. -/
lemma append_inv (h : Twins (ts ++ rest) us) : ∃ vs rest', us = vs ++ rest' ∧ Twins ts vs ∧ Twins rest rest' := by
  induction ts generalizing us with
  | nil => exact ⟨[], us, rfl, .nil, h⟩
  | cons t ts ih =>
    cases h with
    | cons ht h =>
      obtain ⟨vs, rest', rfl, hts, hrest⟩ := ih h
      exact ⟨_ :: vs, rest', rfl, .cons ht hts, hrest⟩

lemma dropWhile (p : Kind → Bool) (h : Twins ts us) : Twins (ts.dropWhile (p ·.kind)) (us.dropWhile (p ·.kind)) := by
  induction h with
  | nil => exact .nil
  | cons ht hs ih =>
    rw [List.dropWhile_cons, List.dropWhile_cons, ht.kind]
    split
    · exact ih
    · exact .cons ht hs

/-- The last tokens are the same, unless they are statement ends. -/
lemma getLast?_eq (h : Twins ts us) (hlast : ∀ t ∈ ts.getLast?, t.kind ≠ .semi) : us.getLast? = ts.getLast? := by
  induction h with
  | nil => rfl
  | @cons t u ts us ht hs ih =>
    cases hs with
    | nil => rw [List.getLast?_singleton, List.getLast?_singleton, ht.2 (hlast t rfl)]
    | cons =>
      rw [List.getLast?_cons_cons, List.getLast?_cons_cons]
      exact ih (by rwa [List.getLast?_cons_cons] at hlast)

end Twins

namespace Cursor.Twin

lemma kind? (h : c.Twin d) : d.kind? = c.kind? := by
  obtain ⟨b, ts⟩ := c
  obtain ⟨b', us⟩ := d
  cases (h : Twins ts us) with
  | nil => rfl
  | cons ht => exact congrArg some ht.kind

lemma pastSemis (h : c.Twin d) : c.pastSemis.Twin d.pastSemis := Twins.dropWhile (fun k => decide (k = .semi)) h

/-- The next token is the same, unless it ends a statement. -/
lemma next (h : c.Twin d) (hk : c.kind? = some k) (hs : k ≠ .semi) :
    ∃ t ts us, c.ahead = t :: ts ∧ d.ahead = t :: us ∧ t.kind = k ∧ Twins ts us := by
  obtain ⟨t, ts, hc, rfl⟩ := Cursor.kind?_eq_some hk
  rw [Cursor.Twin, hc] at h
  generalize hd : d.ahead = us at h
  cases h with
  | cons ht h => exact ⟨t, ts, _, hc, by rw [ht.2 hs], rfl, h⟩

lemma advance (h : c.Twin d) (hk : c.kind? = some k) (hs : k ≠ .semi) : c.advance.Twin d.advance := by
  obtain ⟨t, ts, us, hc, hd, -, h⟩ := h.next hk hs
  rw [Cursor.Twin, Cursor.advance, Cursor.advance, hc, hd]
  exact h

lemma start_eq (h : c.Twin d) (hk : c.kind? = some k) (hs : k ≠ .semi) : d.start = c.start := by
  obtain ⟨t, ts, us, hc, hd, -, -⟩ := h.next hk hs
  rw [Cursor.start, Cursor.start, hc, hd]
  rfl

end Cursor.Twin

/-- Behind what is read two cursors stand at the same offset. -/
lemma Cursor.Reads.behind_eq (h : c.Reads ts c') (h' : d.Reads us d') (htwin : c.Twin d) (hrest : c'.Twin d') (hne : ts ≠ []) :
    d'.behind = c'.behind := by
  rw [Cursor.Twin, h.ahead, h'.ahead] at htwin
  obtain ⟨vs, rest, hsplit, htwins, hrest'⟩ := Twins.append_inv htwin
  have hlength : d'.ahead.length = rest.length := (List.Forall₂.length_eq hrest).symm.trans (List.Forall₂.length_eq hrest')
  obtain ⟨rfl, -⟩ := List.append_inj' hsplit hlength
  rw [h.behind, h'.behind, htwins.getLast?_eq h.last, List.getLast?_eq_some_getLast hne]
  rfl

/-! ### Bodies of functions -/

/-- Behind every place in a group at least as many brackets are closed as are opened, and behind the whole of it just as many
more as the group is deep. -/
lemma countP_of_cut (h : cutGroup? n (inner ++ close :: rest) = some (inner, close, rest)) :
    n + inner.countP (·.kind.isOpen) = inner.countP (·.kind.isClose) ∧
      ∀ ts, ts <:+ inner → ts.countP (·.kind.isOpen) ≤ ts.countP (·.kind.isClose) := by
  induction inner generalizing n with
  | nil =>
    obtain ⟨-, rfl⟩ := cutGroup?_close.1 h
    exact ⟨rfl, fun ts hts => by rw [List.suffix_nil.1 hts]; exact Nat.le_refl _⟩
  | cons t inner ih =>
    obtain ⟨hstays, h⟩ := cutGroup?_inner.1 h
    obtain ⟨hwhole, hsuffix⟩ := ih h
    have hwhole : n + (t :: inner).countP (·.kind.isOpen) = (t :: inner).countP (·.kind.isClose) := by
      rw [List.countP_cons, List.countP_cons]
      unfold Kind.depthBehind at hwhole
      by_cases hc : t.kind.isClose
      · have := hstays hc
        simp only [hc, Kind.isOpen_of_isClose hc, if_true, if_false, Bool.false_eq_true] at hwhole ⊢
        omega
      · by_cases ho : t.kind.isOpen <;> simp only [ho, hc, if_true, if_false, Bool.false_eq_true] at hwhole ⊢ <;> omega
    refine ⟨hwhole, fun ts hts => ?_⟩
    rcases List.suffix_cons_iff.1 hts with rfl | hts
    · omega
    · exact hsuffix ts hts

/-- **A closing bracket closes one opening bracket.** -/
lemma opening_unique (hcloses : Closes inner close) (hcloses' : Closes inner' close) (ho : o.kind.isOpen) (ho' : o'.kind.isOpen)
    (h : (o :: inner) <:+ L) (h' : (o' :: inner') <:+ L) : o :: inner = o' :: inner' := by
  have inside : ∀ {o : Token} {inner inner' : List Token}, Closes inner close → Closes inner' close → o.kind.isOpen →
      ¬ (o :: inner) <:+ inner' := by
    intro o inner inner' hcloses hcloses' ho hsuffix
    have hle := (countP_of_cut hcloses').2 _ hsuffix
    have hcount := (countP_of_cut hcloses).1
    have hc : ¬ o.kind.isClose := by
      revert ho
      cases o.kind <;> decide
    simp only [List.countP_cons, ho, hc, if_true, if_false, Bool.false_eq_true] at hle
    omega
  rcases List.suffix_or_suffix_of_suffix h h' with hsuffix | hsuffix
  · rcases List.suffix_cons_iff.1 hsuffix with e | hsuffix
    · exact e
    · exact (inside hcloses hcloses' ho hsuffix).elim
  · rcases List.suffix_cons_iff.1 hsuffix with e | hsuffix
    · exact e.symm
    · exact (inside hcloses' hcloses ho' hsuffix).elim

/-- In front of twins the same body is read. -/
lemma body_unique {b b' : Span} (h : c.functionBody = .ok (some b, c')) (h' : d.functionBody = .ok (some b', d'))
    (hc : c.ahead <:+ L) (hd : d.ahead <:+ L') (htwins : Twins L L') (hrest : c'.ahead.length = d'.ahead.length) : b = b' := by
  obtain ⟨o, inner, close, hsuffix, ho, hcut, rfl⟩ := functionBody_group h
  obtain ⟨o', inner', close', hsuffix', ho', hcut', rfl⟩ := functionBody_group h'
  have hclose : close.kind ≠ .semi := by
    have := (cutGroup?_eq_some hcut).2
    rintro e
    rw [e] at this
    cases this
  -- the twins of the first body stand in front of what is left, too
  obtain ⟨front, rfl⟩ := hsuffix.trans hc
  obtain ⟨front₂, ws, rfl, -, hws⟩ := htwins.append_inv
  obtain ⟨inner₂, rest₂, rfl, hinner, hlength⟩ : ∃ inner₂ rest₂, ws = o :: (inner₂ ++ close :: rest₂) ∧ Twins inner inner₂ ∧
      c'.ahead.length = rest₂.length := by
    cases hws with
    | cons hto hws =>
      obtain ⟨inner₂, ws, rfl, hinner, hws⟩ := Twins.append_inv hws
      cases hws with
      | cons htc htail =>
        rw [← hto.2 (by rw [ho]; decide), ← htc.2 hclose]
        exact ⟨inner₂, _, rfl, hinner, List.Forall₂.length_eq htail⟩
  obtain ⟨front', hfront'⟩ := hsuffix'.trans hd
  have hsplit : (front' ++ o' :: inner') ++ close' :: d'.ahead = (front₂ ++ o :: inner₂) ++ close :: rest₂ := by simpa using hfront'
  obtain ⟨hfront, hback⟩ := List.append_inj' hsplit (by rw [List.length_cons, List.length_cons, ← hlength, hrest])
  obtain ⟨rfl, -⟩ := List.cons.inj hback
  have hcloses : Closes inner₂ close' := cutGroup?_of_kinds hcut hinner.kinds rfl
  have heq := opening_unique hcloses (closes_of_cut hcut') (by rw [ho]; rfl) (by rw [ho']; rfl) (List.suffix_append front₂ _)
    (by rw [← hfront]; exact List.suffix_append _ _)
  rw [(List.cons.inj heq).1]

/-! ### Declarations -/

lemma Twins.stops (h : Twins c.ahead us) (hend : c.endDeclaration = .ok c') : Stops c.ahead us := by
  rcases Cursor.endDeclaration_eq_ok hend with ⟨hnil, -⟩ | ⟨t, ht, hahead, -⟩
  · rw [hnil] at h ⊢
    cases h
    exact .inl ⟨rfl, rfl⟩
  · rw [hahead] at h ⊢
    cases h with
    | cons htu h => exact .inr ⟨t, _, _, _, rfl, rfl, ht, htu.kind.trans ht⟩

lemma Cursor.Twin.endDeclaration (h : c.Twin d) (hend : c.endDeclaration = .ok c') :
    ∃ d', d.endDeclaration = .ok d' ∧ c'.Twin d' := by
  rcases Cursor.endDeclaration_eq_ok hend with ⟨hnil, rfl⟩ | ⟨t, ht, hahead, -⟩
  · refine ⟨d, ?_, h⟩
    rw [Cursor.Twin, hnil] at h
    rw [Cursor.endDeclaration, List.forall₂_nil_left_iff.1 h]
  · rw [Cursor.Twin, hahead] at h
    generalize hd : d.ahead = us at h
    cases h with
    | cons htu h => exact ⟨_, Cursor.endDeclaration_of_semi hd (htu.kind.trans ht), h⟩

lemma expect_of_twins (h : c.Twin d) (hread : c.expect k goal = .ok (t, c')) :
    ∃ u d', d.expect k goal = .ok (u, d') ∧ t.Twin u ∧ c'.Twin d' := by
  obtain ⟨hc, hk, -⟩ := Cursor.expect_eq_ok_iff.1 hread
  rw [Cursor.Twin, hc] at h
  generalize hd : d.ahead = us at h
  cases h with
  | @cons _ u _ us htu h =>
    exact ⟨u, ⟨u.stop, us⟩, Cursor.expect_eq_ok_iff.2 ⟨hd, htu.kind.trans hk, rfl⟩, htu, h⟩

/-- In front of twins the same declaration is read. -/
lemma declKind_of_twins {kind : DeclKind} (h : c.Twin d) (hread : c.declKind = .ok (kind, c'))
    (hend : ∃ e, c'.endDeclaration = .ok e) :
    ∃ d', d.declKind = .ok (kind, d') ∧ c'.Twin d' ∧ d'.behind = c'.behind ∧ d.start = c.start := by
  obtain ⟨e, hend⟩ := hend
  obtain ⟨t, ts, hreads, hkeyword⟩ := Cursor.declKind_reads hread
  have hkey : t.kind ≠ .semi := by
    intro hk
    rw [hk] at hkeyword
    revert hkeyword
    decide
  have htwins := h
  rw [Cursor.Twin, hreads.ahead] at htwins
  obtain ⟨us, rest, hd, hus, hrest⟩ := htwins.append_inv
  have hagree : Agree Eq c'.ahead rest c d := .of_sameCode (.of_lexemes hus.lexemes.symm) hreads.ahead hd (hrest.stops hend)
  obtain ⟨kind', d', hread', hlike, n, f, ws, ws', hc', hd', halike, -⟩ := declKind_local hagree hread (Nat.le_refl _)
  obtain rfl : ws = [] := by
    have := congrArg List.length hc'
    rw [List.length_append] at this
    exact List.length_eq_zero_iff.1 (by omega)
  cases halike
  obtain ⟨t', ts', hreads', -⟩ := Cursor.declKind_reads hread'
  have hrest' : c'.Twin d' := by
    rw [Cursor.Twin, hd']
    exact hrest
  obtain rfl : kind' = kind := by
    cases hlike with
    | types h => exact congrArg DeclKind.types (eq_of_forall₂ h fun _ _ => TypeSpec.Like.eq).symm
    | vars | consts => rfl
    | @function f g hfunction =>
      obtain ⟨vs, c₂, hc₂, hbody⟩ := Cursor.function_eq_ok (function_of_declKind hread)
      obtain ⟨vs', d₂, hd₂, hbody'⟩ := Cursor.function_eq_ok (function_of_declKind hread')
      obtain ⟨name, receiver, body⟩ := f
      obtain ⟨name', receiver', body'⟩ := g
      obtain ⟨houtline, hsome⟩ := hfunction
      obtain ⟨rfl, rfl, -⟩ := Function.mk.inj houtline
      cases body with
      | none =>
        cases body' with
        | none => rfl
        | some => cases hsome
      | some b =>
        cases body' with
        | none => cases hsome
        | some b' =>
          have := body_unique hbody hbody' (hc₂.suffix.trans advance_suffix) (hd₂.suffix.trans advance_suffix) h
            (List.Forall₂.length_eq hrest')
          rw [this]
  refine ⟨d', hread', hrest', hreads.behind_eq hreads' h hrest' (List.cons_ne_nil _ _), ?_⟩
  exact h.start_eq (by rw [Cursor.kind?, hreads.ahead]; rfl) hkey

lemma decl_of_twins {x : Decl} (h : c.Twin d) (hread : c.decl = .ok (x, c')) : ∃ d', d.decl = .ok (x, d') ∧ c'.Twin d' := by
  obtain ⟨kind, e, hkind, hend, rfl⟩ := Cursor.decl_eq_ok_iff.1 hread
  obtain ⟨d₁, hkind', htwin, hbehind, hstart⟩ := declKind_of_twins h hkind ⟨_, hend⟩
  obtain ⟨d₂, hend', htwin⟩ := htwin.endDeclaration hend
  exact ⟨d₂, Cursor.decl_eq_ok_iff.2 ⟨kind, d₁, hkind', hend', by rw [hbehind, hstart]⟩, htwin⟩

lemma decls_of_twins {xs : List Decl} (h : c.Twin d) (hread : c.decls = .ok xs) : d.decls = .ok xs := by
  fun_induction Cursor.decls c generalizing xs d with
  | case1 c hk =>
    cases hread
    rw [decls_eq, if_pos (by rw [h.pastSemis.kind?, hk])]
  | case2 => cases hread
  | case3 c hk x c' hx hlt ih =>
    obtain ⟨ys, hrest, rfl⟩ := exists_of_map_eq_ok hread
    obtain ⟨d', hx', htwin⟩ := decl_of_twins h.pastSemis hx
    rw [decls_of_decl (by rw [h.pastSemis.kind?]; exact hk) hx', ih htwin hrest]
    rfl

/-! ### Imports -/

/-- Whether a reader reads the same in front of twins. -/
def Steady (read : Cursor → Except Failure (α × Cursor)) : Prop :=
  ∀ ⦃c d a c'⦄, c.Twin d → read c = .ok (a, c') → ∃ d', read d = .ok (a, d') ∧ c'.Twin d'

lemma importSpec_steady : Steady Cursor.importSpec := by
  intro c d spec c' h hread
  -- the token of the path
  have path : ∀ {c d : Cursor} {t : Token} {ts : List Token}, c.Twin d → c.ahead = t :: ts →
      (t.kind = .string ∨ t.kind = .rawString) → ∃ us, d.ahead = t :: us ∧ Twins ts us := by
    intro c d t ts h hc hpath
    obtain ⟨t', ts', us, hc', hd, -, htail⟩ := h.next (k := t.kind) (by rw [Cursor.kind?, hc]; rfl)
      (by rcases hpath with hk | hk <;> rw [hk] <;> decide)
    rw [hc] at hc'
    obtain ⟨rfl, rfl⟩ := List.cons.inj hc'
    exact ⟨us, hd, htail⟩
  obtain ⟨b, ahead⟩ := c'
  obtain ⟨t, hpath, rfl, ⟨hc, rfl⟩ | ⟨u, hname, hc, rfl⟩⟩ := Cursor.importSpec_eq_ok_iff.1 hread
  · obtain ⟨us, hd, htail⟩ := path h hc hpath
    exact ⟨⟨t.stop, us⟩, Cursor.importSpec_eq_ok_iff.2 ⟨t, hpath, rfl, .inl ⟨hd, rfl⟩⟩, htail⟩
  · obtain ⟨u', ts, us, hc', hd, -, htail⟩ := h.next (k := u.kind) (by rw [Cursor.kind?, hc]; rfl)
      (by rcases hname with hk | hk <;> rw [hk] <;> decide)
    obtain ⟨rfl, rfl⟩ := List.cons.inj (hc.symm.trans hc')
    obtain ⟨us, rfl, hrest⟩ := path (c := ⟨u.stop, t :: ahead⟩) (d := ⟨u.stop, us⟩) htail rfl hpath
    exact ⟨⟨t.stop, us⟩, Cursor.importSpec_eq_ok_iff.2 ⟨t, hpath, rfl, .inr ⟨u, hname, hd, rfl⟩⟩, hrest⟩

lemma groupedImportSpec_steady : Steady Cursor.groupedImportSpec := by
  intro c d spec c' h hread
  obtain ⟨e, hspec, hend⟩ := Cursor.groupedImportSpec_eq_ok_iff.1 hread
  obtain ⟨d₁, hspec', htwin⟩ := importSpec_steady h hspec
  rcases hend with ⟨hclose, rfl⟩ | ⟨hclose, t, hsemi⟩
  · exact ⟨d₁, Cursor.groupedImportSpec_eq_ok_iff.2 ⟨d₁, hspec', .inl ⟨htwin.kind?.trans hclose, rfl⟩⟩, htwin⟩
  · have hclose' : d₁.kind? ≠ some .rparen := by rwa [htwin.kind?]
    obtain ⟨u, d₂, hsemi', -, htwin⟩ := expect_of_twins htwin hsemi
    exact ⟨d₂, Cursor.groupedImportSpec_eq_ok_iff.2 ⟨d₁, hspec', .inr ⟨hclose', u, hsemi'⟩⟩, htwin⟩

lemma untilParen_steady {item : ItemReader α} (hitem : Steady item.read) : Steady (item.untilParen goal) := by
  intro c d as c' h hread
  fun_induction item.untilParen goal c generalizing as d with
  | case1 => exact absurd hread Cursor.unmet_ne_ok
  | case2 c hk =>
    cases hread
    exact ⟨_, untilParen_of_rparen (h.pastSemis.kind?.trans hk), h.pastSemis.advance hk (by decide)⟩
  | case3 => cases hread
  | case4 c k hparen hk a e hitem' hlt ih =>
    obtain ⟨⟨as', e'⟩, hrest, hread⟩ := exists_of_map_eq_ok hread
    simp only [Prod.mk.injEq] at hread
    obtain ⟨rfl, rfl⟩ := hread
    obtain ⟨d₁, hread₁, htwin⟩ := hitem h.pastSemis hitem'
    obtain ⟨d₂, hread₂, htwin⟩ := ih htwin hrest
    exact ⟨d₂, by rw [untilParen_of_read (h.pastSemis.kind?.trans hk) hparen hread₁, hread₂]; rfl, htwin⟩

lemma oneOrGroup_steady {one many : ItemReader α} (hone : Steady one.read) (hmany : Steady many.read) :
    Steady (oneOrGroup one many goal) := by
  intro c d as c' h hread
  unfold oneOrGroup at hread ⊢
  rw [h.kind?]
  split at hread
  · next hk =>
    rw [if_pos hk]
    obtain ⟨⟨as', e⟩, hgroup, hread⟩ := exists_of_map_eq_ok hread
    simp only [Prod.mk.injEq] at hread
    obtain ⟨rfl, rfl⟩ := hread
    obtain ⟨d', hgroup', htwin⟩ := untilParen_steady hmany (h.advance hk (by decide)) hgroup
    exact ⟨d', by rw [hgroup']; rfl, htwin⟩
  · next hk =>
    rw [if_neg hk]
    obtain ⟨⟨a, e⟩, hitem, hread⟩ := exists_of_map_eq_ok hread
    simp only [Prod.mk.injEq] at hread
    obtain ⟨rfl, rfl⟩ := hread
    obtain ⟨d', hitem', htwin⟩ := hone h hitem
    exact ⟨d', by rw [hitem']; rfl, htwin⟩

lemma importDecl_of_twins {i : ImportDecl} (h : c.Twin d) (hk : c.kind? = some .importWord) (hread : c.importDecl = .ok (i, c')) :
    ∃ d', d.importDecl = .ok (i, d') ∧ c'.Twin d' := by
  obtain ⟨specs, grouped, e, hspecs, hend, rfl⟩ := Cursor.importDecl_eq_ok_iff.1 hread
  have hsteady : Steady importItem.read ∧ Steady groupedImportItem.read := ⟨importSpec_steady, groupedImportSpec_steady⟩
  obtain ⟨e', hspecs', htwin⟩ := oneOrGroup_steady hsteady.1 hsteady.2 (h.advance hk (by decide)) hspecs
  obtain ⟨d', hend', htwin'⟩ := htwin.endDeclaration hend
  obtain ⟨ts, hreads⟩ := importDecl_reads hk hspecs
  obtain ⟨us, hreads'⟩ := importDecl_reads (h.kind?.trans hk) hspecs'
  have hne := hreads.ne_nil (Nat.lt_of_le_of_lt (oneOrGroup_size_le hspecs) (Cursor.advance_size_lt hk))
  refine ⟨d', Cursor.importDecl_eq_ok_iff.2 ⟨specs, grouped, e', hspecs', hend', ?_⟩, htwin'⟩
  rw [hreads.behind_eq hreads' h htwin hne, h.start_eq hk (by decide)]

lemma imports_of_twins {is : List ImportDecl} (h : c.Twin d) (hread : c.imports = .ok (is, c')) :
    ∃ d', d.imports = .ok (is, d') ∧ c'.Twin d' := by
  fun_induction Cursor.imports c generalizing is d with
  | case1 => cases hread
  | case2 c hk i e hi hlt ih =>
    obtain ⟨⟨js, e'⟩, hrest, hread⟩ := exists_of_map_eq_ok hread
    simp only [Prod.mk.injEq] at hread
    obtain ⟨rfl, rfl⟩ := hread
    obtain ⟨d₁, hi', htwin⟩ := importDecl_of_twins h.pastSemis hk hi
    obtain ⟨d₂, hrest', htwin⟩ := ih htwin hrest
    exact ⟨d₂, by rw [imports_of_importDecl (h.pastSemis.kind?.trans hk) hi', hrest']; rfl, htwin⟩
  | case3 c hk =>
    cases hread
    refine ⟨d, ?_, h⟩
    rw [Cursor.imports, dif_neg (by rw [h.pastSemis.kind?]; exact hk)]

/-! ### Files -/

lemma packageClause_of_twins {p : PackageClause} (h : c.Twin d) (hread : c.packageClause = .ok (p, c')) :
    ∃ d', d.packageClause = .ok (p, d') ∧ c'.Twin d' := by
  obtain ⟨keyword, e, name, e', hkeyword, hname, hend, rfl⟩ := Cursor.packageClause_eq_ok_iff.1 hread
  obtain ⟨u, d₁, hkeyword', hu, htwin⟩ := expect_of_twins h hkeyword
  obtain ⟨v, d₂, hname', hv, htwin⟩ := expect_of_twins htwin hname
  obtain ⟨d', hend', htwin⟩ := htwin.endDeclaration hend
  have hk : keyword.kind ≠ .semi := by
    rw [(Cursor.expect_eq_ok_iff.1 hkeyword).2.1]
    decide
  have hk' : name.kind ≠ .semi := by
    rw [(Cursor.expect_eq_ok_iff.1 hname).2.1]
    decide
  exact ⟨d', Cursor.packageClause_eq_ok_iff.2 ⟨u, d₁, v, d₂, hkeyword', hname', hend', by rw [hu.2 hk, hv.2 hk']⟩, htwin⟩

/-- **From twins the same file is read.** -/
theorem file_of_twins {tree : Tree} (h : c.Twin d) (hread : c.file = .ok tree) : d.file = .ok tree := by
  obtain ⟨p, e, is, e', xs, hclause, himports, hdecls, rfl⟩ := Cursor.file_eq_ok_iff.1 hread
  obtain ⟨d₁, hclause', htwin⟩ := packageClause_of_twins h.pastSemis hclause
  obtain ⟨d₂, himports', htwin⟩ := imports_of_twins htwin himports
  exact Cursor.file_eq_ok_iff.2 ⟨p, d₁, is, d₂, xs, hclause', himports', decls_of_twins htwin hdecls, rfl⟩

end RuleWeaver.Source
