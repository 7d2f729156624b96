import RuleWeaver.Proofs.Source.Likeness

/-!
# Declarations elsewhere

How a declaration is read depends on the classes and texts of its tokens alone, up to the statement end behind it: not on
their offsets, not on what follows, and not on what the braces of literals and bodies hold (`Local`).  What is read is then
the same declaration but for the offsets in it (`DeclKind.Like`).
-/

namespace RuleWeaver.Source

open Text (unquote)

variable {α : Type} {P : Text → Text → Prop} {e e₂ ts us ts₂ us₂ inner inner₂ rest rest₂ : List Token} {c c' c₂ : Cursor}
  {t t₂ close close₂ : Token} {goal : Goal} {k : Kind} {n : Nat}

/-- Whether a reader that succeeds in front of some code, without going past its end, succeeds in front of code that is alike
with a related result. -/
def Local (P : Text → Text → Prop) (read : Cursor → Except Failure (α × Cursor)) (R : α → α → Prop) : Prop :=
  ∀ ⦃e e₂ c c₂ a c'⦄, Agree P e e₂ c c₂ → read c = .ok (a, c') → e.length ≤ c'.size →
    ∃ a₂ c₂', read c₂ = .ok (a₂, c₂') ∧ R a a₂ ∧ Agree P e e₂ c' c₂'

/-- Whether a reader that only goes forward is local. -/
def LocalSkip (P : Text → Text → Prop) (skip : Cursor → Except Failure Cursor) : Prop :=
  ∀ ⦃e e₂ c c₂ c'⦄, Agree P e e₂ c c₂ → skip c = .ok c' → e.length ≤ c'.size → ∃ c₂', skip c₂ = .ok c₂' ∧ Agree P e e₂ c' c₂'

/-- A reader that applies a function to what another one reads. -/
lemma Local.map {β γ : Type} {read : Cursor → Except Failure (β × Cursor)} {R : β → β → Prop} {S : γ → γ → Prop} {g : β → γ}
    (h : Local P read R) (hg : ∀ a b, R a b → S (g a) (g b)) :
    Local P (fun c => (read c).map fun (a, d) => (g a, d)) S := by
  intro e e₂ c c₂ x c' hagree hx hle
  obtain ⟨⟨a, d⟩, hread, hx⟩ := exists_of_map_eq_ok hx
  simp only [Prod.mk.injEq] at hx
  obtain ⟨rfl, rfl⟩ := hx
  obtain ⟨a₂, d₂, hread₂, ha, hd⟩ := h hagree hread hle
  exact ⟨g a₂, d₂, by simp only [hread₂, Except.map], hg _ _ ha, hd⟩

/-! ### Tokens and groups -/

lemma expect_agree (hagree : Agree P e e₂ c c₂) (h : c.expect k goal = .ok (t, c')) (hle : e.length ≤ c'.size)
    (hk : k ≠ .lbrace) : ∃ t₂ c₂', c₂.expect k goal = .ok (t₂, c₂') ∧ t.Like P t₂ ∧ Agree P e e₂ c' c₂' := by
  have hlt := Nat.lt_of_le_of_lt hle (Cursor.expect_shorter h)
  obtain ⟨b, ahead⟩ := c'
  obtain ⟨hc, hkind, -⟩ := Cursor.expect_eq_ok_iff.1 h
  obtain ⟨u, t₂, ts, ts₂, hu, hc₂, ht, hrest⟩ := hagree.next hlt (by
    rw [Cursor.kind?, hc]
    simpa [hkind] using hk)
  rw [hc] at hu
  obtain ⟨rfl, rfl⟩ := List.cons.inj hu
  exact ⟨t₂, ⟨t₂.stop, ts₂⟩, Cursor.expect_eq_ok_iff.2 ⟨hc₂, ht.1.symm.trans hkind, rfl⟩, ht, hrest _ _⟩

/-- A group, and what it holds if it is not one of braces behind anything but `struct`. -/
lemma group_of_alike {g : Group} {f : Bool} (halike : Alike P n f us us₂) (hc : c.ahead = us ++ e) (hc₂ : c₂.ahead = us₂ ++ e₂)
    (hs : Stops e e₂) (h : c.group = .ok (g, c')) (hle : e.length ≤ c'.size) (ho : c.kind? = some k) (hopen : k.isOpen) :
    ∃ g₂ c₂', c₂.group = .ok (g₂, c₂') ∧ Agree P e e₂ c' c₂' ∧
      (f = true ∨ k ≠ .lbrace → SameCode P g.inner g₂.inner) := by
  obtain ⟨o, inner, close, hahead, hcut, rfl, -⟩ := Cursor.group_eq_ok h
  have hahead' : c.ahead = (o :: (inner ++ [close])) ++ c'.ahead := by
    rw [hahead]
    simp
  have hkind : o.kind = k := by
    rw [Cursor.kind?, hahead] at ho
    exact Option.some.inj ho
  obtain ⟨vs, rfl, hvs⟩ : ∃ vs, us = o :: (inner ++ close :: vs) ∧ c'.ahead = vs ++ e := by
    rcases List.append_eq_append_iff.1 (hahead'.symm.trans hc) with ⟨vs, rfl, hvs⟩ | ⟨vs, hvs', hvs⟩
    · exact ⟨vs, by simp, hvs⟩
    · have hlen := congrArg List.length hvs
      rw [List.length_append] at hlen
      have hsize : c'.size = c'.ahead.length := rfl
      obtain rfl : vs = [] := List.length_eq_zero_iff.1 (by omega)
      exact ⟨[], by simpa using hvs'.symm, by simpa using hvs.symm⟩
  obtain ⟨o₂, inner₂, close₂, us', rfl, -, hcloses, ⟨m, hrest⟩, hinner⟩ := halike.group (by rw [hkind]; exact hopen) hcut
  refine ⟨⟨inner₂, o₂.start, close₂.stop⟩, ⟨close₂.stop, us' ++ e₂⟩, ?_, ⟨m, false, vs, us', hvs, rfl, hrest, hs⟩, ?_⟩
  · rw [Cursor.group, hc₂]
    simp only [List.cons_append, List.append_assoc, hcloses.cut]
  · rw [← hkind]
    exact hinner

lemma group_agree {g : Group} (hagree : Agree P e e₂ c c₂) (h : c.group = .ok (g, c')) (hle : e.length ≤ c'.size)
    (hk : c.kind? = some k) (hopen : k.isOpen) :
    ∃ g₂ c₂', c₂.group = .ok (g₂, c₂') ∧ Agree P e e₂ c' c₂' ∧ (k ≠ .lbrace → SameCode P g.inner g₂.inner) := by
  obtain ⟨n, f, us, us₂, hc, hc₂, halike, hs⟩ := hagree
  obtain ⟨g₂, c₂', hg, hagree, hinner⟩ := group_of_alike halike hc hc₂ hs h hle hk hopen
  exact ⟨g₂, c₂', hg, hagree, fun h => hinner (.inr h)⟩

lemma groupIf_agree {b : Bool} (hagree : Agree P e e₂ c c₂) (h : c.groupIf b = .ok c') (hle : e.length ≤ c'.size)
    (hb : b → c.kind? = some k) (hopen : k.isOpen) : ∃ c₂', c₂.groupIf b = .ok c₂' ∧ Agree P e e₂ c' c₂' := by
  unfold Cursor.groupIf at h ⊢
  split at h
  · next htrue =>
    rw [if_pos htrue]
    obtain ⟨⟨g, d⟩, hgroup, rfl⟩ := exists_of_map_eq_ok h
    obtain ⟨g₂, d₂, hgroup₂, hd, -⟩ := group_agree hagree hgroup hle (hb htrue) hopen
    exact ⟨d₂, by rw [hgroup₂]; rfl, hd⟩
  · next hfalse =>
    cases h
    rw [if_neg hfalse]
    exact ⟨c₂, rfl, hagree⟩

/-- Classes of tokens that are skipped one by one within a statement. -/
def Kind.isPassed (k : Kind) : Bool :=
  k ∉ [.semi, .rparen, .packageWord, .importWord, .typeWord, .varWord, .constWord] && !k.isOpen && !k.isClose

lemma skipStatement_stop (h : c.kind? = none ∨ c.kind? = some .semi ∨ c.kind? = some .rparen) : c.skipStatement = .ok c := by
  rw [Cursor.skipStatement]
  rcases h with h | h | h <;> split <;> simp_all

lemma skipStatement_group {g : Group} (hk : c.kind? = some k) (ho : k.isOpen) (h : c.group = .ok (g, c')) :
    c.skipStatement = c'.skipStatement := by
  rw [Cursor.skipStatement]
  split <;> rename_i e <;> rw [hk] at e <;> cases e <;> try cases ho
  rw [if_pos ho]
  split <;> rename_i e' <;> rw [h] at e' <;> cases e'
  rfl

lemma skipStatement_advance (hk : c.kind? = some k) (hp : k.isPassed) : c.skipStatement = c.advance.skipStatement := by
  rw [Cursor.skipStatement]
  simp only [Kind.isPassed, Bool.and_eq_true, Bool.not_eq_true'] at hp
  split <;> rename_i e <;> rw [hk] at e <;> cases e <;> try (exact absurd hp (by decide))
  rw [if_neg (by simp [hp.1.2]), if_neg (by simp [hp.2])]

lemma skipStatement_local : LocalSkip P Cursor.skipStatement := by
  intro e e₂ c c₂ c' hagree h hle
  fun_induction Cursor.skipStatement c generalizing c₂ with
  | case1 c hk =>
    cases h
    exact ⟨c₂, skipStatement_stop (.inl (hagree.kind?.trans hk)), hagree⟩
  | case2 c hk =>
    cases h
    exact ⟨c₂, skipStatement_stop (.inr (.inl (hagree.kind?.trans hk))), hagree⟩
  | case3 c hk =>
    cases h
    exact ⟨c₂, skipStatement_stop (.inr (.inr (hagree.kind?.trans hk))), hagree⟩
  | case4 | case5 | case6 | case7 | case8 => exact absurd h Cursor.unmet_ne_ok
  | case9 => cases h
  | case10 c k h₁ h₂ h₃ h₄ h₅ h₆ h₇ hk ho g d hgroup hlt ih =>
    have hd : e.length ≤ d.size := Nat.le_trans hle (Cursor.skipStatement_size_le h)
    obtain ⟨g₂, d₂, hgroup₂, hd, -⟩ := group_agree hagree hgroup hd hk ho
    obtain ⟨c₂', h', hagree'⟩ := ih hd h
    exact ⟨c₂', by rw [skipStatement_group (hagree.kind?.trans hk) ho hgroup₂, h'], hagree'⟩
  | case11 => exact absurd h Cursor.unmet_ne_ok
  | case12 c k h₁ h₂ h₃ h₄ h₅ h₆ h₇ hk ho hc hlt ih =>
    have hle' : e.length < c.size :=
      Nat.lt_of_le_of_lt (Nat.le_trans hle (Cursor.skipStatement_size_le h)) hlt
    have hp : k.isPassed := by simp_all [Kind.isPassed]
    have hbrace : c.kind? ≠ some .lbrace := by
      rw [hk]
      rintro ⟨⟩
      exact ho rfl
    obtain ⟨c₂', h', hagree'⟩ := ih (hagree.advance hle' hbrace) h
    exact ⟨c₂', by rw [skipStatement_advance (hagree.kind?.trans hk) hp, h'], hagree'⟩

/-! ### Types -/

/-- Whether two fields are the same but for their tags, which are related. -/
structure Field.Like (P : Text → Text → Prop) (f g : Field) : Prop where
  names : f.names = g.names
  tag : Option.Rel (Related P) f.tag g.tag
  embedded : f.embedded = g.embedded

/-- Whether two type specs are the same but for the tags of their fields, which are related. -/
structure TypeSpec.Like (P : Text → Text → Prop) (s r : TypeSpec) : Prop where
  name : s.name = r.name
  fields : Option.Rel (List.Forall₂ (Field.Like P)) s.fields r.fields

lemma fieldSegments_sameCode (h : SameCode P ts us) :
    List.Forall₂ (SameCode P) (fieldSegments n ts) (fieldSegments n us) := by
  induction h generalizing n with
  | nil => exact .cons .nil .nil
  | @cons t u ts us ht h ih =>
    simp only [fieldSegments, ← ht.1]
    split
    · exact .cons .nil ih
    · have := ih (n := if t.kind.isOpen then n + 1 else if t.kind.isClose then n - 1 else n)
      generalize fieldSegments _ ts = ss at this
      generalize fieldSegments _ us = ss₂ at this
      cases this with
      | nil => exact .cons (.cons ht .nil) .nil
      | cons h₁ h₂ => exact .cons (.cons ht h₁) h₂

lemma fieldNames_sameCode {names : List Text} (h : SameCode P ts us) (hn : fieldNames ts = .ok names) :
    fieldNames us = .ok names := by
  fun_induction fieldNames ts generalizing us names with
  | case1 =>
    obtain rfl := h.eq_nil
    exact hn
  | case2 | case3 => cases hn
  | case4 t u ts ht hu ih =>
    obtain ⟨t₂, us, rfl, ht₂, h⟩ := h.cons_inv
    obtain ⟨u₂, us, rfl, hu₂, h⟩ := h.cons_inv
    cases hrest : fieldNames ts with
    | error => simp [hrest, Except.map] at hn
    | ok names' =>
      rw [hrest] at hn
      rw [fieldNames, if_pos (by rw [← ht₂.1]; exact ht), if_pos (by rw [← hu₂.1]; exact hu), ih h hrest,
        ← ht₂.text (by rw [ht]; decide)]
      exact hn
  | case5 t u ts ht hu =>
    obtain ⟨t₂, us, rfl, ht₂, h⟩ := h.cons_inv
    obtain ⟨u₂, us, rfl, hu₂, h⟩ := h.cons_inv
    rw [fieldNames, if_pos (by rw [← ht₂.1]; exact ht), if_neg (by rw [← hu₂.1]; exact hu), ← ht₂.text (by rw [ht]; decide)]
    exact hn
  | case6 => cases hn

lemma splitTag_sameCode (h : SameCode P ts us) :
    SameCode P (splitTag ts).1 (splitTag us).1 ∧ Option.Rel (Related P) (splitTag ts).2 (splitTag us).2 := by
  have hlast := h.getLast?
  have hlength := h.length
  unfold splitTag
  generalize ts.getLast? = x at hlast
  generalize us.getLast? = y at hlast
  cases hlast with
  | none => exact ⟨h, .none⟩
  | some ht =>
    dsimp only
    rw [ht.1, hlength]
    split
    · exact ⟨h.dropLast, .some ht.unquote⟩
    · exact ⟨h, .none⟩

/-- The text of the last token of an embedded type. -/
lemma embedded_name (h : SameCode P ts us) (he : isEmbedded ts) :
    (ts.getLast?.map (·.text)).getD [] = (us.getLast?.map (·.text)).getD [] := by
  have hlast := h.getLast?
  have hident : ∀ t ∈ ts.getLast?, t.kind = .ident := by
    intro t ht
    have hlast : (ts.map (·.kind)).getLast? = some t.kind := by
      rw [List.getLast?_map, Option.mem_def.1 ht]
      rfl
    unfold isEmbedded at he
    split at he <;> rename_i hkinds
    all_goals first | (rw [hkinds] at hlast; exact (Option.some.inj hlast).symm) | cases he
  generalize ts.getLast? = x at hlast hident
  generalize us.getLast? = y at hlast
  cases hlast with
  | none => rfl
  | some ht => exact ht.text (by rw [hident _ rfl]; decide)

lemma field?_sameCode {f : Option Field} (h : SameCode P ts us) (hf : field? ts = .ok f) :
    ∃ g, field? us = .ok g ∧ Option.Rel (Field.Like P) f g := by
  have hempty : ts.isEmpty = us.isEmpty := by
    rw [Bool.eq_iff_iff, List.isEmpty_iff_length_eq_zero, List.isEmpty_iff_length_eq_zero, h.length]
  obtain ⟨hbody, htag⟩ := splitTag_sameCode h
  have hembedded : isEmbedded (splitTag ts).1 = isEmbedded (splitTag us).1 := by
    unfold isEmbedded
    rw [hbody.kinds]
  simp only [field?, hempty, hembedded] at hf ⊢
  split at hf
  · next he =>
    rw [if_pos he]
    cases hf
    exact ⟨none, rfl, .none⟩
  next he =>
  rw [if_neg he]
  split at hf
  · next hb =>
    rw [if_pos hb]
    cases hf
    exact ⟨_, rfl, .some ⟨by rw [embedded_name hbody (hembedded.trans hb)], htag, rfl⟩⟩
  · next hb =>
    rw [if_neg hb]
    obtain ⟨names, hnames, rfl⟩ := exists_of_map_eq_ok hf
    rw [fieldNames_sameCode hbody hnames]
    exact ⟨_, rfl, .some ⟨rfl, htag, rfl⟩⟩

lemma mapM_field?_sameCode {ss ss₂ : List (List Token)} {fs : List (Option Field)} (h : List.Forall₂ (SameCode P) ss ss₂)
    (hread : ss.mapM field? = .ok fs) :
    ∃ fs₂, ss₂.mapM field? = .ok fs₂ ∧ List.Forall₂ (Field.Like P) (fs.filterMap id) (fs₂.filterMap id) := by
  induction h generalizing fs with
  | nil =>
    cases hread
    exact ⟨[], rfl, .nil⟩
  | cons h₁ _ ih =>
    rw [List.mapM_cons] at hread
    obtain ⟨f, hf, hread⟩ := exists_of_bind_eq_ok hread
    obtain ⟨gs, hgs, hread⟩ := exists_of_bind_eq_ok hread
    cases hread
    obtain ⟨g, hg, hfg⟩ := field?_sameCode h₁ hf
    obtain ⟨gs₂, hgs₂, hrest⟩ := ih hgs
    refine ⟨g :: gs₂, ?_, ?_⟩
    · rw [List.mapM_cons, bind_ok hg, bind_ok hgs₂]
      rfl
    · cases hfg with
      | none => exact hrest
      | some h => exact .cons h hrest

lemma fields_sameCode {fs : List Field} (h : SameCode P ts us) (hfs : fields ts = .ok fs) :
    ∃ fs₂, fields us = .ok fs₂ ∧ List.Forall₂ (Field.Like P) fs fs₂ := by
  unfold fields at hfs ⊢
  obtain ⟨gs, hread, rfl⟩ := exists_of_map_eq_ok hfs
  obtain ⟨gs₂, hgs₂, hrel⟩ := mapM_field?_sameCode (fieldSegments_sameCode h) hread
  exact ⟨_, by rw [hgs₂]; rfl, hrel⟩

lemma structFields?_local : Local P Cursor.structFields? (Option.Rel (List.Forall₂ (Field.Like P))) := by
  intro e e₂ c c₂ fs c' hagree h hle
  unfold Cursor.structFields? at h ⊢
  have hcond : (c₂.kind? = some .structWord ∧ c₂.kindAt? 1 = some .lbrace) ↔
      (c.kind? = some .structWord ∧ c.kindAt? 1 = some .lbrace) := by
    rw [hagree.kind?]
    refine and_congr_right fun hk => ?_
    rw [hagree.kindAt? (n := 1)]
    intro i hi
    obtain rfl : i = 0 := by omega
    rw [Agree.kindAt?_zero, hk]
    decide
  split at h
  · next hk =>
    rw [if_pos (hcond.2 hk)]
    split at h
    · cases h
    · next g d hgroup =>
      obtain ⟨fs', hfields, h⟩ := exists_of_map_eq_ok h
      simp only [Prod.mk.injEq] at h
      obtain ⟨rfl, rfl⟩ := h
      -- what stands between the braces of a struct is the same
      have hlt : e.length < c.size :=
        Nat.lt_of_le_of_lt hle (Nat.lt_of_lt_of_le (Cursor.group_shorter hgroup) (Cursor.advance_size_le c))
      obtain ⟨n, f, us, us₂, hc, hc₂, halike, hs⟩ := hagree
      cases halike with
      | nil =>
        rw [Cursor.size, hc] at hlt
        exact absurd hlt (by simp)
      | @cons _ _ t t₂ ts ts₂ ht halike =>
        have hword : t.kind = .structWord := by
          have := hk.1
          rw [Cursor.kind?, hc] at this
          exact Option.some.inj this
        rw [hword] at halike
        have hadvance : c.advance.ahead = ts ++ e := by rw [Cursor.advance, hc]; rfl
        have hadvance₂ : c₂.advance.ahead = ts₂ ++ e₂ := by rw [Cursor.advance, hc₂]; rfl
        obtain ⟨g₂, d₂, hgroup₂, hd, hinner⟩ :=
          group_of_alike halike hadvance hadvance₂ hs hgroup hle (Cursor.kind?_advance hk.2) rfl
        obtain ⟨fs₂, hfs₂, hrel⟩ := fields_sameCode (hinner (.inl rfl)) hfields
        refine ⟨some fs₂, d₂, ?_, .some hrel, hd⟩
        rw [hgroup₂]
        dsimp only
        rw [hfs₂]
        rfl
      | braces ho =>
        have := hk.1
        rw [Cursor.kind?, hc] at this
        simp [ho] at this
  · next hk =>
    rw [if_neg fun h => hk (hcond.1 h)]
    cases h
    exact ⟨_, c₂, rfl, .none, hagree⟩

lemma skip_agree (h : Agree P e e₂ c c₂) (hle : e.length ≤ (c.skip k).size) (hk : k ≠ .lbrace) :
    Agree P e e₂ (c.skip k) (c₂.skip k) := by
  unfold Cursor.skip at hle ⊢
  rw [h.kind?]
  split at hle
  · next hc =>
    rw [if_pos hc, if_pos hc]
    exact h.advance (Nat.lt_of_le_of_lt hle (Cursor.advance_size_lt hc)) (by rw [hc]; simpa using hk)
  · next hc =>
    rw [if_neg hc, if_neg hc]
    exact h

lemma atTypeParameters_agree (h : Agree P e e₂ c c₂) : c₂.atTypeParameters = c.atTypeParameters := by
  unfold Cursor.atTypeParameters
  rw [h.kind?, decide_eq_decide]
  refine and_congr_right fun hk => ?_
  have hone : c₂.kindAt? 1 = c.kindAt? 1 := by
    refine h.kindAt? fun i hi => ?_
    obtain rfl : i = 0 := by omega
    rw [Agree.kindAt?_zero, hk]
    decide
  rw [hone]
  refine and_congr_right fun hk₁ => ?_
  have htwo : c₂.kindAt? 2 = c.kindAt? 2 := by
    refine h.kindAt? fun i hi => ?_
    obtain rfl | rfl : i = 0 ∨ i = 1 := by omega
    · rw [Agree.kindAt?_zero, hk]
      decide
    · rw [hk₁]
      decide
  rw [htwo]

lemma typeSpec_local : Local P Cursor.typeSpec (TypeSpec.Like P) := by
  intro e e₂ c c₂ spec c' hagree h hle
  obtain ⟨name, d, d', fields, d'', h₁, h₂, h₃, h₄, rfl⟩ := Cursor.typeSpec_eq_ok_iff.1 h
  have hle₃ : e.length ≤ d''.size := Nat.le_trans hle (Cursor.skipStatement_size_le h₄)
  have hle₂ : e.length ≤ (d'.skip .assign).size := Nat.le_trans hle₃ (Cursor.structFields?_size_le h₃)
  have hle₂' : e.length ≤ d'.size := Nat.le_trans hle₂ (Cursor.skip_size_le _ _)
  have hle₁ : e.length ≤ d.size := Nat.le_trans hle₂' (Cursor.groupIf_size_le h₂)
  obtain ⟨t₁, f₁, g₁, ht, hagree⟩ := expect_agree hagree h₁ hle₁ (by decide)
  have hkind : name.kind = .ident := (Cursor.expect_eq_ok_iff.1 h₁).2.1
  have hparameters : d.atTypeParameters → d.kind? = some .lbracket := by
    unfold Cursor.atTypeParameters
    intro h
    exact (of_decide_eq_true h).1
  obtain ⟨f₂, g₂, hagree'⟩ := groupIf_agree hagree h₂ hle₂' hparameters rfl
  rw [← atTypeParameters_agree hagree] at g₂
  obtain ⟨fs, f₃, g₃, hfs, hagree⟩ := structFields?_local (skip_agree hagree' hle₂ (by decide)) h₃ hle₃
  obtain ⟨f₄, g₄, hagree⟩ := skipStatement_local hagree h₄ hle
  exact ⟨⟨t₁.text, fs⟩, f₄, Cursor.typeSpec_eq_ok_iff.2 ⟨t₁, f₁, f₂, fs, f₃, g₁, g₂, g₃, g₄, rfl⟩,
    ⟨ht.text (by rw [hkind]; decide), hfs⟩, hagree⟩

/-! ### Values -/

lemma declaredNames_local : Local P Cursor.declaredNames fun a b => a = b := by
  intro e e₂ c c₂ names c' hagree h hle
  fun_induction Cursor.declaredNames c generalizing names c₂ with
  | case1 => cases h
  | case2 c t d hexpect hk _ ih =>
    obtain ⟨⟨names', d'⟩, hrest, h⟩ := exists_of_map_eq_ok h
    simp only [Prod.mk.injEq] at h
    obtain ⟨rfl, rfl⟩ := h
    have hlt : e.length < d.size := Nat.lt_of_le_of_lt hle
      (Nat.lt_of_lt_of_le (Cursor.declaredNames_shorter hrest) (Cursor.advance_size_le d))
    obtain ⟨t₂, d₂, hexpect₂, ht, hagree⟩ := expect_agree hagree hexpect (Nat.le_of_lt hlt) (by decide)
    obtain ⟨names₂, f₂, h₂, rfl, hagree'⟩ := ih (hagree.advance hlt (by rw [hk]; decide)) hrest
    refine ⟨_, f₂, ?_, rfl, hagree'⟩
    rw [Cursor.declaredNames]
    split <;> rename_i h₃ <;> rw [hexpect₂] at h₃ <;> cases h₃
    rw [if_pos (by rw [hagree.kind?, hk]), h₂, ht.text (by rw [(Cursor.expect_eq_ok_iff.1 hexpect).2.1]; decide)]
    rfl
  | case3 c t d hexpect hk =>
    cases h
    obtain ⟨t₂, d₂, hexpect₂, ht, hagree⟩ := expect_agree hagree hexpect hle (by decide)
    refine ⟨_, d₂, ?_, rfl, hagree⟩
    rw [Cursor.declaredNames]
    split <;> rename_i h₃ <;> rw [hexpect₂] at h₃ <;> cases h₃
    rw [if_neg (by rw [hagree.kind?]; exact hk), ht.text (by rw [(Cursor.expect_eq_ok_iff.1 hexpect).2.1]; decide)]

lemma valueSpec_local : Local P Cursor.valueSpec fun a b => a = b := by
  intro e e₂ c c₂ names c' hagree h hle
  obtain ⟨d, h₁, h₂⟩ := Cursor.valueSpec_eq_ok_iff.1 h
  have hle₁ : e.length ≤ d.size := Nat.le_trans hle (Cursor.skipStatement_size_le h₂)
  obtain ⟨names₂, f₁, g₁, rfl, hagree⟩ := declaredNames_local hagree h₁ hle₁
  obtain ⟨f₂, g₂, hagree⟩ := skipStatement_local hagree h₂ hle
  exact ⟨_, f₂, Cursor.valueSpec_eq_ok_iff.2 ⟨f₁, g₁, g₂⟩, rfl, hagree⟩

/-! ### Functions -/

lemma functionBody_none (h : c.kind? = none ∨ c.kind? = some .semi) : c.functionBody = .ok (none, c) := by
  rw [Cursor.functionBody]
  rcases h with h | h <;> split <;> simp_all

/-- Whether a type literal with braces is ahead. -/
def Cursor.atTypeLiteral (c : Cursor) : Prop :=
  (c.kind? = some .structWord ∨ c.kind? = some .interfaceWord) ∧ c.kindAt? 1 = some .lbrace

lemma atTypeLiteral_agree (h : Agree P e e₂ c c₂) : c₂.atTypeLiteral ↔ c.atTypeLiteral := by
  unfold Cursor.atTypeLiteral
  rw [h.kind?]
  refine and_congr_right fun hk => ?_
  rw [h.kindAt? fun i hi => ?_]
  obtain rfl : i = 0 := by omega
  rw [Agree.kindAt?_zero]
  rcases hk with hk | hk <;> rw [hk] <;> decide

lemma functionBody_typeLiteral {g : Group} (hl : c.atTypeLiteral) (h : c.advance.group = .ok (g, c')) :
    c.functionBody = c'.functionBody := by
  obtain ⟨hk, hbrace⟩ := hl
  rw [Cursor.functionBody]
  split <;> rename_i e
  · simp [e] at hk
  · simp [e] at hk
  · rw [if_pos ⟨by simpa [e] using hk, hbrace⟩]
    split <;> rename_i e' <;> rw [h] at e' <;> cases e'
    rfl

lemma functionBody_brace {g : Group} (hk : c.kind? = some .lbrace) (h : c.group = .ok (g, c')) :
    c.functionBody = .ok (some g.span, c') := by
  rw [Cursor.functionBody]
  split <;> rename_i e <;> rw [hk] at e <;> cases e
  rw [if_neg (by simp), if_pos rfl, h]
  rfl

lemma functionBody_other {g : Group} (hk : c.kind? = some k) (ho : k.isOpen) (hb : k ≠ .lbrace) (h : c.group = .ok (g, c')) :
    c.functionBody = c'.functionBody := by
  rw [Cursor.functionBody]
  split <;> rename_i e <;> rw [hk] at e <;> cases e <;> try cases ho
  rw [if_neg (by rintro ⟨rfl | rfl, -⟩ <;> cases ho), if_neg hb, if_pos ho]
  split <;> rename_i e' <;> rw [h] at e' <;> cases e'
  rfl

lemma functionBody_advance (hk : c.kind? = some k) (hs : k ≠ .semi) (hl : ¬ c.atTypeLiteral) (ho : k.isOpen = false)
    (hc : k.isClose = false) : c.functionBody = c.advance.functionBody := by
  rw [Cursor.functionBody]
  split <;> rename_i e <;> rw [hk] at e <;> cases e
  · exact absurd rfl hs
  · have hl : ¬ ((k = .structWord ∨ k = .interfaceWord) ∧ c.kindAt? 1 = some .lbrace) := by
      simpa [Cursor.atTypeLiteral, hk] using hl
    have hb : k ≠ .lbrace := by
      rintro rfl
      cases ho
    rw [if_neg hl, if_neg hb, if_neg (by simp [ho]), if_neg (by simp [hc])]

lemma functionBody_local : Local P Cursor.functionBody fun b b₂ => b.isSome = b₂.isSome := by
  intro e e₂ c c₂ b c' hagree h hle
  fun_induction Cursor.functionBody c generalizing c₂ with
  | case1 c hk =>
    cases h
    exact ⟨_, c₂, functionBody_none (.inl (hagree.kind?.trans hk)), rfl, hagree⟩
  | case2 c hk =>
    cases h
    exact ⟨_, c₂, functionBody_none (.inr (hagree.kind?.trans hk)), rfl, hagree⟩
  | case3 => cases h
  | case4 c k hsemi hk hl g d hgroup _ ih =>
    have hbrace : c.kind? ≠ some .lbrace := by
      rw [hk]
      rintro ⟨⟩
      rcases hl.1 with h | h <;> cases h
    have hl : c.atTypeLiteral := by simpa [Cursor.atTypeLiteral, hk] using hl
    have hd : e.length ≤ d.size := Nat.le_trans hle (Cursor.functionBody_size_le h)
    have hlt : e.length < c.size :=
      Nat.lt_of_le_of_lt hd (Nat.lt_of_lt_of_le (Cursor.group_shorter hgroup) (Cursor.advance_size_le c))
    obtain ⟨g₂, d₂, hgroup₂, hd, -⟩ := group_agree (hagree.advance hlt hbrace) hgroup hd (Cursor.kind?_advance hl.2) rfl
    obtain ⟨b₂, f₂, h₂, hagree'⟩ := ih hd h
    exact ⟨b₂, f₂, by rw [functionBody_typeLiteral ((atTypeLiteral_agree hagree).2 hl) hgroup₂, h₂], hagree'⟩
  | case5 c _ hk =>
    obtain ⟨⟨g, d⟩, hgroup, h⟩ := exists_of_map_eq_ok h
    simp only [Prod.mk.injEq] at h
    obtain ⟨rfl, rfl⟩ := h
    obtain ⟨g₂, d₂, hgroup₂, hd, -⟩ := group_agree hagree hgroup hle hk rfl
    exact ⟨_, d₂, functionBody_brace (hagree.kind?.trans hk) hgroup₂, rfl, hd⟩
  | case6 => cases h
  | case7 c k _ hk _ hb ho g d hgroup _ ih =>
    have hd : e.length ≤ d.size := Nat.le_trans hle (Cursor.functionBody_size_le h)
    obtain ⟨g₂, d₂, hgroup₂, hd, -⟩ := group_agree hagree hgroup hd hk ho
    obtain ⟨b₂, f₂, h₂, hagree'⟩ := ih hd h
    exact ⟨b₂, f₂, by rw [functionBody_other (hagree.kind?.trans hk) ho hb hgroup₂, h₂], hagree'⟩
  | case8 => exact absurd h Cursor.unmet_ne_ok
  | case9 c k hsemi hk hl hb ho hc hlt ih =>
    have hl : ¬ c.atTypeLiteral := by simpa [Cursor.atTypeLiteral, hk] using hl
    have hle' : e.length < c.size := Nat.lt_of_le_of_lt (Nat.le_trans hle (Cursor.functionBody_size_le h)) hlt
    obtain ⟨b₂, f₂, h₂, hagree'⟩ := ih (hagree.advance hle' (by rw [hk]; simpa using hb)) h
    refine ⟨b₂, f₂, ?_, hagree'⟩
    rw [functionBody_advance (hagree.kind?.trans hk) hsemi (fun h => hl ((atTypeLiteral_agree hagree).1 h))
      (by simpa using ho) (by simpa using hc), h₂]

lemma receiver_sameCode {g g₂ : Group} {a : Receiver} (h : SameCode P g.inner g₂.inner) (ha : Cursor.receiver g = .ok a) :
    Cursor.receiver g₂ = .ok a := by
  have hnames := ((h.takeWhile (· ≠ .lbracket)).filter (· = .ident)).getLast?
  have hany := h.any (· = .star)
  have hident : ∀ t ∈ ((g.inner.takeWhile (·.kind ≠ .lbracket)).filter (·.kind = .ident)).getLast?, t.kind = .ident := by
    intro t ht
    exact of_decide_eq_true (List.mem_filter.1 (List.mem_of_getLast? ht)).2
  unfold Cursor.receiver at ha ⊢
  dsimp only at ha ⊢
  rw [← hany]
  generalize ((g.inner.takeWhile (·.kind ≠ .lbracket)).filter (·.kind = .ident)).getLast? = x at hnames ha hident
  generalize ((g₂.inner.takeWhile (·.kind ≠ .lbracket)).filter (·.kind = .ident)).getLast? = y at hnames
  cases hnames with
  | none => cases ha
  | some ht =>
    dsimp only at ha ⊢
    rw [← ht.text (by rw [hident _ rfl]; decide)]
    exact ha

lemma receiver?_local : Local P Cursor.receiver? fun a b => a = b := by
  intro e e₂ c c₂ a c' hagree h hle
  obtain ⟨hk, g, x, hgroup, hreceiver, rfl⟩ | ⟨hk, rfl, rfl⟩ := Cursor.receiver?_eq_ok_iff.1 h
  · obtain ⟨g₂, d₂, hgroup₂, hd, hg⟩ := group_agree hagree hgroup hle hk rfl
    have hreceiver₂ := receiver_sameCode (hg (by decide)) hreceiver
    exact ⟨some x, d₂, Cursor.receiver?_eq_ok_iff.2 (.inl ⟨by rw [hagree.kind?, hk], g₂, x, hgroup₂, hreceiver₂, rfl⟩), rfl, hd⟩
  · exact ⟨none, c₂, Cursor.receiver?_eq_ok_iff.2 (.inr ⟨by rwa [hagree.kind?], rfl, rfl⟩), rfl, hagree⟩

lemma parameters_local : Local P Cursor.parameters fun _ _ => True := by
  intro e e₂ c c₂ g c' hagree h hle
  unfold Cursor.parameters at h ⊢
  rw [hagree.kind?]
  split at h
  · next hk =>
    rw [if_pos hk]
    obtain ⟨g₂, d₂, hgroup₂, hd, -⟩ := group_agree hagree h hle hk rfl
    exact ⟨g₂, d₂, hgroup₂, trivial, hd⟩
  · exact absurd h Cursor.unmet_ne_ok

/-- A function without the offsets of its body. -/
def Function.outline (f : Function) : Function := { f with body := none }

/-- Whether two functions are the same but for the offsets of their bodies. -/
structure Function.Like (f g : Function) : Prop where
  outline : f.outline = g.outline
  body : f.body.isSome = g.body.isSome

lemma function_local : Local P Cursor.function Function.Like := by
  intro e e₂ c c₂ f c' hagree h hle
  obtain ⟨receiver, d₁, name, d₂, d₃, parameters, d₄, body, h₁, h₂, h₃, h₄, h₅, rfl⟩ := Cursor.function_eq_ok_iff.1 h
  have hle₄ : e.length ≤ d₄.size := Nat.le_trans hle (Cursor.functionBody_size_le h₅)
  have hle₃ : e.length ≤ d₃.size := Nat.le_trans hle₄ (Nat.le_of_lt (Cursor.parameters_shorter h₄))
  have hle₂ : e.length ≤ d₂.size := Nat.le_trans hle₃ (Cursor.groupIf_size_le h₃)
  have hle₁ : e.length ≤ d₁.size := Nat.le_trans hle₂ (Nat.le_of_lt (Cursor.expect_shorter h₂))
  obtain ⟨a, f₁, g₁, ha, hagree⟩ := receiver?_local hagree h₁ hle₁
  obtain ⟨t, f₂, g₂, ht, hagree⟩ := expect_agree hagree h₂ hle₂ (by decide)
  have hkind : name.kind = .ident := (Cursor.expect_eq_ok_iff.1 h₂).2.1
  obtain ⟨f₃, g₃, hagree'⟩ := groupIf_agree hagree h₃ hle₃ (k := .lbracket) (by simp) rfl
  rw [← hagree.kind?] at g₃
  obtain ⟨p, f₄, g₄, -, hagree⟩ := parameters_local hagree' h₄ hle₄
  obtain ⟨b, f₅, g₅, hbody, hagree⟩ := functionBody_local hagree h₅ hle
  refine ⟨⟨t.text, a, b⟩, f₅, Cursor.function_eq_ok_iff.2 ⟨a, f₁, t, f₂, f₃, p, f₄, b, g₁, g₂, g₃, g₄, g₅, rfl⟩, ⟨?_, hbody⟩, hagree⟩
  simp only [Function.outline, ht.text (by rw [hkind]; decide), ha]

/-! ### Imports -/

/-- Whether two import specs are the same but for their offsets, and but for their paths, which are related. -/
structure ImportSpec.Like (P : Text → Text → Prop) (s r : ImportSpec) : Prop where
  name : s.name = r.name
  path : Related P s.path r.path

lemma importSpec_local : Local P Cursor.importSpec (ImportSpec.Like P) := by
  intro e e₂ c c₂ spec c' hagree h hle
  have hlt : e.length < c.size := Nat.lt_of_le_of_lt hle (Cursor.importSpec_shorter h)
  -- the token of the path
  have path : ∀ {d d₂ : Cursor} {t : Token} {ts : List Token}, Agree P e e₂ d d₂ → d.ahead = t :: ts →
      (t.kind = .string ∨ t.kind = .rawString) → e.length ≤ ts.length → ∃ t₂ ts₂, d₂.ahead = t₂ :: ts₂ ∧ t.Like P t₂ ∧
        ∀ b b₂, Agree P e e₂ ⟨b, ts⟩ ⟨b₂, ts₂⟩ := by
    intro d d₂ t ts hd hahead ht hle
    have hkind : d.kind? = some t.kind := by
      rw [Cursor.kind?, hahead]
      rfl
    obtain ⟨t', t₂, ts', ts₂, hts, hts₂, hlike, hrest⟩ := hd.next (by rw [Cursor.size, hahead, List.length_cons]; omega)
      (by rw [hkind]; rcases ht with ht | ht <;> rw [ht] <;> decide)
    rw [hahead] at hts
    obtain ⟨rfl, rfl⟩ := List.cons.inj hts
    exact ⟨t₂, ts₂, hts₂, hlike, hrest⟩
  obtain ⟨t, hpath, -, ⟨hahead, rfl⟩ | ⟨u, hname, hahead, rfl⟩⟩ := Cursor.importSpec_eq_ok_iff.1 h
  · obtain ⟨t₂, ts₂, hts₂, ht, hrest⟩ := path hagree hahead hpath hle
    exact ⟨_, ⟨t₂.stop, ts₂⟩, Cursor.importSpec_eq_ok_iff.2 ⟨t₂, ht.1 ▸ hpath, rfl, .inl ⟨hts₂, rfl⟩⟩, ⟨rfl, ht.unquote⟩, hrest _ _⟩
  · obtain ⟨u', u₂, us, us₂, hu, hu₂, hlike, hrest⟩ := hagree.next hlt (by
      rw [Cursor.kind?, hahead]
      rcases hname with h | h <;> simp [h])
    obtain ⟨rfl, rfl⟩ := List.cons.inj (hahead.symm.trans hu)
    have htext : u.text = u₂.text := hlike.text (by rcases hname with h | h <;> rw [h] <;> decide)
    obtain ⟨t₂, ts₂, rfl, ht, hagree'⟩ := path (hrest u.stop u₂.stop) rfl hpath hle
    exact ⟨_, ⟨t₂.stop, ts₂⟩, Cursor.importSpec_eq_ok_iff.2 ⟨t₂, ht.1 ▸ hpath, rfl, .inr ⟨u₂, hlike.1 ▸ hname, hu₂, rfl⟩⟩,
      ⟨congrArg some htext, ht.unquote⟩, hagree' _ _⟩

lemma groupedImportSpec_local : Local P Cursor.groupedImportSpec (ImportSpec.Like P) := by
  intro e e₂ c c₂ spec c' hagree h hle
  obtain ⟨d, hspec, ⟨hclose, rfl⟩ | ⟨hclose, t, hsemi⟩⟩ := Cursor.groupedImportSpec_eq_ok_iff.1 h
  · obtain ⟨a, f, g, ha, hagree⟩ := importSpec_local hagree hspec hle
    exact ⟨a, f, Cursor.groupedImportSpec_eq_ok_iff.2 ⟨f, g, .inl ⟨hagree.kind?.trans hclose, rfl⟩⟩, ha, hagree⟩
  · have hle₁ : e.length ≤ d.size := Nat.le_trans hle (Nat.le_of_lt (Cursor.expect_shorter hsemi))
    obtain ⟨a, f₁, g₁, ha, hagree⟩ := importSpec_local hagree hspec hle₁
    obtain ⟨t₂, f₂, g₂, -, hagree'⟩ := expect_agree hagree hsemi hle (by decide)
    have hclose₂ : f₁.kind? ≠ some .rparen := by rwa [hagree.kind?]
    exact ⟨a, f₂, Cursor.groupedImportSpec_eq_ok_iff.2 ⟨f₁, g₁, .inr ⟨hclose₂, t₂, g₂⟩⟩, ha, hagree'⟩

/-! ### Declarations -/

lemma pastSemis_eq_self (h : c.ahead = t :: ts) (hk : t.kind ≠ .semi) : c.pastSemis = c := by
  obtain ⟨b, ahead⟩ := c
  obtain rfl : ahead = t :: ts := h
  simp [Cursor.pastSemis, hk]

lemma untilParen_local {item : ItemReader α} {R : α → α → Prop} (hitem : Local P item.read R) :
    Local P (item.untilParen goal) (List.Forall₂ R) := by
  intro e e₂ c c₂ as c' hagree h hle
  fun_induction item.untilParen goal c generalizing as c₂ with
  | case1 => exact absurd h Cursor.unmet_ne_ok
  | case2 c hk =>
    cases h
    have hlt : e.length < c.pastSemis.size := Nat.lt_of_le_of_lt hle (Cursor.advance_size_lt hk)
    have hpast := hagree.pastSemis (Nat.le_of_lt hlt)
    refine ⟨_, _, untilParen_of_rparen (hpast.kind?.trans hk), .nil, hpast.advance hlt ?_⟩
    rw [hk]
    decide
  | case3 => cases h
  | case4 c k hparen hk a d hread hlt' ih =>
    obtain ⟨⟨as', d'⟩, hrest, h⟩ := exists_of_map_eq_ok h
    simp only [Prod.mk.injEq] at h
    obtain ⟨rfl, rfl⟩ := h
    have hd : e.length ≤ d.size := Nat.le_trans hle (item.untilParen_size_le goal hrest)
    have hpast := hagree.pastSemis (Nat.le_trans hd (Nat.le_of_lt (item.shorter hread)))
    obtain ⟨a₂, d₂, hread₂, ha, hagree'⟩ := hitem hpast hread hd
    obtain ⟨as₂, f₂, h₂, has, hagree''⟩ := ih hagree' hrest
    refine ⟨_, f₂, ?_, .cons ha has, hagree''⟩
    rw [untilParen_of_read (hpast.kind?.trans hk) hparen hread₂, h₂]
    rfl

lemma oneOrGroup_local {one many : ItemReader α} {R : α → α → Prop} (hone : Local P one.read R) (hmany : Local P many.read R) :
    Local P (oneOrGroup one many goal) fun a b => List.Forall₂ R a.1 b.1 ∧ a.2 = b.2 := by
  intro e e₂ c c₂ as c' hagree h hle
  unfold oneOrGroup at h ⊢
  rw [hagree.kind?]
  split at h
  · next hk =>
    rw [if_pos hk]
    obtain ⟨⟨as', d⟩, hread, h⟩ := exists_of_map_eq_ok h
    simp only [Prod.mk.injEq] at h
    obtain ⟨rfl, rfl⟩ := h
    have hlt : e.length < c.size :=
      Nat.lt_of_le_of_lt (Nat.le_trans hle (many.untilParen_size_le goal hread)) (Cursor.advance_size_lt hk)
    obtain ⟨as₂, d₂, hread₂, has, hd⟩ := untilParen_local hmany (hagree.advance hlt (by rw [hk]; decide)) hread hle
    exact ⟨(as₂, true), d₂, by rw [hread₂]; rfl, ⟨has, rfl⟩, hd⟩
  · next hk =>
    rw [if_neg hk]
    obtain ⟨⟨a, d⟩, hread, h⟩ := exists_of_map_eq_ok h
    simp only [Prod.mk.injEq] at h
    obtain ⟨rfl, rfl⟩ := h
    obtain ⟨a₂, d₂, hread₂, ha, hd⟩ := hone hagree hread hle
    exact ⟨([a₂], false), d₂, by rw [hread₂]; rfl, ⟨.cons ha .nil, rfl⟩, hd⟩

/-- What is declared, without the offsets of bodies. -/
def DeclKind.shape : DeclKind → DeclKind
  | .function f => .function f.outline
  | k => k

/-- Whether two declarations are the same but for the offsets of bodies, and but for the tags of fields, which are related. -/
inductive DeclKind.Like (P : Text → Text → Prop) : DeclKind → DeclKind → Prop
  | types {ss rs : List TypeSpec} (h : List.Forall₂ (TypeSpec.Like P) ss rs) : Like P (.types ss) (.types rs)
  | function {f g : Function} (h : f.Like g) : Like P (.function f) (.function g)
  | vars (names : List Text) : Like P (.vars names) (.vars names)
  | consts (names : List Text) : Like P (.consts names) (.consts names)

lemma eq_of_forall₂ {β : Type} {R : β → β → Prop} {as bs : List β} (h : List.Forall₂ R as bs) (hR : ∀ a b, R a b → a = b) :
    as = bs := by
  induction h with
  | nil => rfl
  | cons h _ ih => rw [hR _ _ h, ih]

lemma TypeSpec.Like.eq {s r : TypeSpec} (h : s.Like Eq r) : s = r := by
  obtain ⟨name, fields⟩ := s
  obtain ⟨name', fields'⟩ := r
  obtain ⟨rfl, hfields⟩ := h
  cases hfields with
  | none => rfl
  | some h =>
    have := eq_of_forall₂ h fun f g hfg => by
      obtain ⟨names, tag, embedded⟩ := f
      obtain ⟨names', tag', embedded'⟩ := g
      obtain ⟨rfl, htag, rfl⟩ := hfg
      cases htag with
      | none => rfl
      | some h => rw [related_eq_iff.1 h]
    rw [this]

/-- With equal tags declarations are the same but for the offsets of bodies. -/
lemma DeclKind.Like.shape_eq {k k₂ : DeclKind} (h : k.Like Eq k₂) : k.shape = k₂.shape := by
  cases h with
  | types h => exact congrArg DeclKind.types (eq_of_forall₂ h fun _ _ => TypeSpec.Like.eq)
  | function h => exact congrArg DeclKind.function h.outline
  | vars | consts => rfl

/-- **A declaration is the same wherever it stands.** -/
theorem declKind_local : Local P Cursor.declKind (DeclKind.Like P) := by
  intro e e₂ c c₂ kind c' hagree h hle
  have htypes : Local P (oneOrGroup typeItem typeItem .typeGroupEnd) fun a b =>
      List.Forall₂ (TypeSpec.Like P) a.1 b.1 ∧ a.2 = b.2 :=
    oneOrGroup_local typeSpec_local typeSpec_local
  have hvalues : Local P (oneOrGroup valueItem valueItem .valueGroupEnd) fun a b =>
      List.Forall₂ (fun a b => a = b) a.1 b.1 ∧ a.2 = b.2 :=
    oneOrGroup_local valueSpec_local valueSpec_local
  have names : ∀ {a b : List (List Text) × Bool}, List.Forall₂ (fun a b => a = b) a.1 b.1 ∧ a.2 = b.2 → a.1.flatten = b.1.flatten :=
    fun h => by rw [eq_of_forall₂ h.1 fun _ _ => id]
  have hlt : e.length < c.size := Nat.lt_of_le_of_lt hle (Cursor.declKind_shorter h)
  have keyword : c.kind? ∈ [some .typeWord, some .funcWord, some .varWord, some .constWord] → Agree P e e₂ c.advance c₂.advance := by
    intro hk
    refine hagree.advance hlt ?_
    intro hbrace
    rw [hbrace] at hk
    revert hk
    decide
  unfold Cursor.declKind at h ⊢
  rw [hagree.kind?]
  split at h <;> rename_i hk
  · have hread := htypes.map (g := fun r => DeclKind.types r.1) (S := DeclKind.Like P) fun _ _ h => .types h.1
    exact hread (keyword (by simp [hk])) h hle
  · have hread := function_local.map (P := P) (g := DeclKind.function) (S := DeclKind.Like P) fun _ _ h => .function h
    exact hread (keyword (by simp [hk])) h hle
  · have hread := hvalues.map (g := fun r => DeclKind.vars r.1.flatten) (S := DeclKind.Like P) fun _ _ h => names h ▸ .vars _
    exact hread (keyword (by simp [hk])) h hle
  · have hread := hvalues.map (g := fun r => DeclKind.consts r.1.flatten) (S := DeclKind.Like P) fun _ _ h => names h ▸ .consts _
    exact hread (keyword (by simp [hk])) h hle
  · exact absurd h Cursor.unmet_ne_ok
  · exact absurd h Cursor.unmet_ne_ok

end RuleWeaver.Source
