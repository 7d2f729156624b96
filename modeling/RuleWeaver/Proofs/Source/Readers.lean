import RuleWeaver.Proofs.Outcomes
import RuleWeaver.Source.Parser

/-!
# What readers consist of

A reader that runs other readers one after the other succeeds exactly if they do, and its result is put together from theirs.
What else is proved about such a reader follows from its lemma here.
-/

namespace RuleWeaver.Source

namespace Cursor

variable {c c' : Cursor}

/-! ### Tokens -/

lemma kind?_eq_some {k : Kind} (h : c.kind? = some k) : ∃ t ts, c.ahead = t :: ts ∧ t.kind = k := by
  rcases c with ⟨b, _ | ⟨t, ts⟩⟩
  · cases h
  · exact ⟨t, ts, rfl, Option.some.inj h⟩

lemma expect_eq_ok_iff {kind : Kind} {goal : Goal} {t : Token} : c.expect kind goal = .ok (t, c') ↔
    c.ahead = t :: c'.ahead ∧ t.kind = kind ∧ c'.behind = t.stop := by
  unfold expect
  constructor
  · intro h
    split at h
    · exact absurd h unmet_ne_ok
    · next s ts hahead =>
      split at h
      · next hk =>
        cases h
        exact ⟨hahead, hk, rfl⟩
      · exact absurd h unmet_ne_ok
  · rintro ⟨hahead, hk, hbehind⟩
    simp only [hahead, if_pos hk, ← hbehind]

lemma endDeclaration_of_semi {t : Token} {ts : List Token} (hc : c.ahead = t :: ts) (ht : t.kind = .semi) :
    c.endDeclaration = .ok ⟨t.stop, ts⟩ := by
  rw [endDeclaration, hc]
  exact if_pos ht

/-! ### Declarations -/

/-- A receiver stands in parentheses, and without one nothing is read. -/
lemma receiver?_eq_ok_iff {r : Option Receiver} : c.receiver? = .ok (r, c') ↔
    (c.kind? = some .lparen ∧ ∃ g x, c.group = .ok (g, c') ∧ receiver g = .ok x ∧ r = some x) ∨
      (c.kind? ≠ some .lparen ∧ r = none ∧ c = c') := by
  unfold receiver?
  constructor
  · intro h
    split at h
    · next hk =>
      split at h
      · cases h
      · next g d hgroup =>
        obtain ⟨x, hx, h⟩ := exists_of_map_eq_ok h
        cases h
        exact .inl ⟨hk, g, x, hgroup, hx, rfl⟩
    · next hk =>
      cases h
      exact .inr ⟨hk, rfl, rfl⟩
  · rintro (⟨hk, g, x, hgroup, hx, rfl⟩ | ⟨hk, rfl, rfl⟩)
    · rw [if_pos hk, hgroup]
      simp only [hx]
      rfl
    · rw [if_neg hk]

lemma typeSpec_eq_ok_iff {spec : TypeSpec} : c.typeSpec = .ok (spec, c') ↔
    ∃ name d d' fields e, c.expect .ident .typeName = .ok (name, d) ∧ d.groupIf d.atTypeParameters = .ok d' ∧
      (d'.skip .assign).structFields? = .ok (fields, e) ∧ e.skipStatement = .ok c' ∧ spec = ⟨name.text, fields⟩ := by
  unfold typeSpec
  constructor
  · intro h
    obtain ⟨⟨name, d⟩, hname, h⟩ := exists_of_bind_eq_ok h
    obtain ⟨d', hgroup, h⟩ := exists_of_bind_eq_ok h
    obtain ⟨⟨fields, e⟩, hfields, h⟩ := exists_of_bind_eq_ok h
    obtain ⟨e', hskip, h⟩ := exists_of_bind_eq_ok h
    cases h
    exact ⟨name, d, d', fields, e, hname, hgroup, hfields, hskip, rfl⟩
  · rintro ⟨name, d, d', fields, e, hname, hgroup, hfields, hskip, rfl⟩
    simp only [bind_ok hname, bind_ok hgroup, bind_ok hfields, bind_ok hskip]
    rfl

lemma valueSpec_eq_ok_iff {names : List Text} : c.valueSpec = .ok (names, c') ↔
    ∃ d, c.declaredNames = .ok (names, d) ∧ d.skipStatement = .ok c' := by
  unfold valueSpec
  constructor
  · intro h
    obtain ⟨⟨names, d⟩, hnames, h⟩ := exists_of_bind_eq_ok h
    obtain ⟨e, hskip, h⟩ := exists_of_bind_eq_ok h
    cases h
    exact ⟨d, hnames, hskip⟩
  · rintro ⟨d, hnames, hskip⟩
    simp only [bind_ok hnames, bind_ok hskip]
    rfl

lemma function_eq_ok_iff {f : Function} : c.function = .ok (f, c') ↔
    ∃ receiver d name d' e parameters e' body, c.receiver? = .ok (receiver, d) ∧ d.expect .ident .functionName = .ok (name, d') ∧
      d'.groupIf (d'.kind? = some .lbracket) = .ok e ∧ e.parameters = .ok (parameters, e') ∧ e'.functionBody = .ok (body, c') ∧
      f = ⟨name.text, receiver, body⟩ := by
  unfold function
  constructor
  · intro h
    obtain ⟨⟨receiver, d⟩, hreceiver, h⟩ := exists_of_bind_eq_ok h
    obtain ⟨⟨name, d'⟩, hname, h⟩ := exists_of_bind_eq_ok h
    obtain ⟨e, hgroup, h⟩ := exists_of_bind_eq_ok h
    obtain ⟨⟨parameters, e'⟩, hparameters, h⟩ := exists_of_bind_eq_ok h
    obtain ⟨⟨body, e''⟩, hbody, h⟩ := exists_of_bind_eq_ok h
    cases h
    exact ⟨receiver, d, name, d', e, parameters, e', body, hreceiver, hname, hgroup, hparameters, hbody, rfl⟩
  · rintro ⟨receiver, d, name, d', e, parameters, e', body, hreceiver, hname, hgroup, hparameters, hbody, rfl⟩
    simp only [bind_ok hreceiver, bind_ok hname, bind_ok hgroup, bind_ok hparameters, bind_ok hbody]
    rfl

lemma decl_eq_ok_iff {x : Decl} : c.decl = .ok (x, c') ↔
    ∃ kind d, c.declKind = .ok (kind, d) ∧ d.endDeclaration = .ok c' ∧ x = ⟨kind, ⟨c.start, d.behind⟩, c.start⟩ := by
  unfold decl
  constructor
  · intro h
    obtain ⟨⟨kind, d⟩, hkind, h⟩ := exists_of_bind_eq_ok h
    obtain ⟨d', hend, h⟩ := exists_of_bind_eq_ok h
    cases h
    exact ⟨kind, d, hkind, hend, rfl⟩
  · rintro ⟨kind, d, hkind, hend, rfl⟩
    simp only [bind_ok hkind, bind_ok hend]
    rfl

/-! ### The head of a file -/

lemma packageClause_eq_ok_iff {p : PackageClause} : c.packageClause = .ok (p, c') ↔
    ∃ keyword d name d', c.expect .packageWord .packageClause = .ok (keyword, d) ∧ d.expect .ident .packageName = .ok (name, d') ∧
      d'.endDeclaration = .ok c' ∧ p = ⟨name.text, ⟨keyword.start, name.stop⟩⟩ := by
  unfold packageClause
  constructor
  · intro h
    obtain ⟨⟨keyword, d⟩, hkeyword, h⟩ := exists_of_bind_eq_ok h
    obtain ⟨⟨name, d'⟩, hname, h⟩ := exists_of_bind_eq_ok h
    obtain ⟨e, hend, h⟩ := exists_of_bind_eq_ok h
    cases h
    exact ⟨keyword, d, name, d', hkeyword, hname, hend, rfl⟩
  · rintro ⟨keyword, d, name, d', hkeyword, hname, hend, rfl⟩
    simp only [bind_ok hkeyword, bind_ok hname, bind_ok hend]
    rfl

lemma packageClause_of_kinds {b : ℕ} {keyword name semi : Token} {ts : List Token} (hkeyword : keyword.kind = .packageWord)
    (hname : name.kind = .ident) (hsemi : semi.kind = .semi) :
    (Cursor.mk b (keyword :: name :: semi :: ts)).packageClause =
      .ok (⟨name.text, ⟨keyword.start, name.stop⟩⟩, ⟨semi.stop, ts⟩) :=
  packageClause_eq_ok_iff.2 ⟨keyword, ⟨keyword.stop, name :: semi :: ts⟩, name, ⟨name.stop, semi :: ts⟩,
    expect_eq_ok_iff.2 ⟨rfl, hkeyword, rfl⟩, expect_eq_ok_iff.2 ⟨rfl, hname, rfl⟩, endDeclaration_of_semi rfl hsemi, rfl⟩

/-- An import spec is a path, perhaps with a name or a dot in front of it. -/
lemma importSpec_eq_ok_iff {spec : ImportSpec} : c.importSpec = .ok (spec, c') ↔
    ∃ t, (t.kind = .string ∨ t.kind = .rawString) ∧ c'.behind = t.stop ∧
      ((c.ahead = t :: c'.ahead ∧ spec = ⟨none, Text.unquote t.text, t.start, t.stop⟩) ∨
        ∃ u, (u.kind = .ident ∨ u.kind = .dot) ∧ c.ahead = u :: t :: c'.ahead ∧
          spec = ⟨some u.text, Text.unquote t.text, u.start, t.stop⟩) := by
  unfold importSpec
  constructor
  · intro h
    by_cases hnamed : c.kind? = some .ident ∨ c.kind? = some .dot
    · obtain ⟨u, us, hu, hkind⟩ : ∃ u us, c.ahead = u :: us ∧ (u.kind = .ident ∨ u.kind = .dot) := by
        rcases hnamed with hk | hk <;> obtain ⟨u, us, hu, hkind⟩ := kind?_eq_some hk
        · exact ⟨u, us, hu, .inl hkind⟩
        · exact ⟨u, us, hu, .inr hkind⟩
      simp only [if_pos hnamed, advance, hu] at h
      split at h
      · next t ts =>
        split at h
        · next hpath =>
          cases h
          exact ⟨t, hpath, rfl, .inr ⟨u, hkind, hu, rfl⟩⟩
        · exact absurd h unmet_ne_ok
      · exact absurd h unmet_ne_ok
    · simp only [if_neg hnamed] at h
      split at h
      · next t ts hts =>
        split at h
        · next hpath =>
          cases h
          exact ⟨t, hpath, rfl, .inl ⟨hts, by rw [hts]; rfl⟩⟩
        · exact absurd h unmet_ne_ok
      · exact absurd h unmet_ne_ok
  · obtain ⟨b, ahead⟩ := c'
    rintro ⟨t, hpath, rfl, ⟨hahead, rfl⟩ | ⟨u, hname, hahead, rfl⟩⟩
    · have hnamed : ¬ (t.kind = .ident ∨ t.kind = .dot) := by rcases hpath with h | h <;> simp [h]
      simp only [kind?, hahead, List.head?_cons, Option.map_some, Option.some.injEq, if_neg hnamed, if_pos hpath, Option.getD_some]
    · simp only [kind?, hahead, List.head?_cons, Option.map_some, Option.some.injEq, if_pos hname, advance, if_pos hpath,
        Option.getD_some]

/-- In a group an import spec ends in front of the closing parenthesis, or behind a statement end. -/
lemma groupedImportSpec_eq_ok_iff {spec : ImportSpec} : c.groupedImportSpec = .ok (spec, c') ↔
    ∃ d, c.importSpec = .ok (spec, d) ∧ (d.kind? = some .rparen ∧ d = c' ∨
      d.kind? ≠ some .rparen ∧ ∃ t, d.expect .semi .importSeparator = .ok (t, c')) := by
  unfold groupedImportSpec
  constructor
  · intro h
    obtain ⟨⟨spec, d⟩, hspec, h⟩ := exists_of_bind_eq_ok h
    dsimp only at h
    split at h
    · next hclose =>
      cases h
      exact ⟨_, hspec, .inl ⟨hclose, rfl⟩⟩
    · next hclose =>
      obtain ⟨⟨t, e⟩, hsemi, h⟩ := exists_of_bind_eq_ok h
      cases h
      exact ⟨d, hspec, .inr ⟨hclose, t, hsemi⟩⟩
  · rintro ⟨d, hspec, ⟨hclose, rfl⟩ | ⟨hclose, t, hsemi⟩⟩
    · simp only [bind_ok hspec, if_pos hclose]
      rfl
    · simp only [bind_ok hspec, if_neg hclose]
      rw [bind_ok hsemi]
      rfl

lemma importDecl_eq_ok_iff {i : ImportDecl} : c.importDecl = .ok (i, c') ↔
    ∃ specs grouped d, oneOrGroup importItem groupedImportItem .importGroupEnd c.advance = .ok ((specs, grouped), d) ∧
      d.endDeclaration = .ok c' ∧ i = ⟨specs, ⟨c.start, d.behind⟩, c.start, grouped⟩ := by
  unfold importDecl
  constructor
  · intro h
    obtain ⟨⟨⟨specs, grouped⟩, d⟩, hspecs, h⟩ := exists_of_bind_eq_ok h
    obtain ⟨d', hend, h⟩ := exists_of_bind_eq_ok h
    cases h
    exact ⟨specs, grouped, d, hspecs, hend, rfl⟩
  · rintro ⟨specs, grouped, d, hspecs, hend, rfl⟩
    simp only [bind_ok hspecs, bind_ok hend]
    rfl

lemma file_eq_ok_iff {tree : Tree} : c.file = .ok tree ↔
    ∃ p d is d' ds, c.pastSemis.packageClause = .ok (p, d) ∧ d.imports = .ok (is, d') ∧ d'.decls = .ok ds ∧
      tree = ⟨p, is, ds⟩ := by
  unfold file
  constructor
  · intro h
    obtain ⟨⟨p, d⟩, hclause, h⟩ := exists_of_bind_eq_ok h
    obtain ⟨⟨is, d'⟩, himports, h⟩ := exists_of_bind_eq_ok h
    obtain ⟨ds, hdecls, h⟩ := exists_of_bind_eq_ok h
    cases h
    exact ⟨p, d, is, d', ds, hclause, himports, hdecls, rfl⟩
  · rintro ⟨p, d, is, d', ds, hclause, himports, hdecls, rfl⟩
    simp only [bind_ok hclause, bind_ok himports, bind_ok hdecls]
    rfl

end Cursor

/-- A text is read in two steps: its tokens, then the tree. -/
lemma parse_eq_ok_iff {s : Text} {tree : Tree} : parse s = .ok tree ↔ ∃ all bare, tokenize s = .ok all ∧
    Cursor.file ⟨0, endStatements s.width false all⟩ = .ok bare ∧ tree = bare.withComments all := by
  unfold parse
  constructor
  · intro h
    split at h
    · cases h
    next all hall =>
    split at h
    · cases h
    next bare hbare =>
    cases h
    exact ⟨all, bare, hall, hbare, rfl⟩
  · rintro ⟨all, bare, hall, hbare, rfl⟩
    simp only [hall, hbare]

end RuleWeaver.Source
