import RuleWeaver.Proofs.Source.ImportSection
import RuleWeaver.Proofs.Source.Offsets

/-!
# What readers read

A reader reads the tokens between two cursors (`Cursor.Reads`).  The offsets in a declaration tree are offsets of such
tokens, so the text can be cut at them (`parse_isBoundary`), and the body of a function stands between braces
(`parse_body`).
-/

namespace RuleWeaver.Source

open Text (IsBoundary)

variable {α : Type} {c c' d : Cursor} {ts us inner rest : List Token} {t close : Token} {goal : Goal}

/-- Whether a cursor is further on than another one, with whole groups between them. -/
structure Cursor.Passes (c c' : Cursor) : Prop where
  suffix : c'.ahead <:+ c.ahead
  balanced : ∀ stack, isBalanced stack (c.ahead.map Token.lexeme) → isBalanced stack (c'.ahead.map Token.lexeme)

/-- Whether the tokens between two cursors are read: whole groups, the last token no statement end. -/
structure Cursor.Reads (c : Cursor) (ts : List Token) (c' : Cursor) : Prop where
  ahead : c.ahead = ts ++ c'.ahead
  behind : c'.behind = (ts.getLast?.map Token.stop).getD c.behind
  last : ∀ t ∈ ts.getLast?, t.kind ≠ .semi
  balanced : ∀ stack, isBalanced stack (c.ahead.map Token.lexeme) → isBalanced stack (c'.ahead.map Token.lexeme)

/-- Whether tokens of the class are read one by one: they are neither brackets nor statement ends. -/
def Kind.isSolitary (k : Kind) : Bool := k ≠ .semi && !k.isOpen && !k.isClose

lemma isSolitary_of_not {k : Kind} (hs : k ≠ .semi) (ho : ¬ k.isOpen) (hc : ¬ k.isClose) : k.isSolitary := by
  simp [Kind.isSolitary, hs, ho, hc]

namespace Cursor

lemma Passes.refl : c.Passes c := ⟨List.suffix_rfl, fun _ h => h⟩

lemma Passes.trans (h : c.Passes d) (h' : d.Passes c') : c.Passes c' :=
  ⟨h'.suffix.trans h.suffix, fun stack hb => h'.balanced stack (h.balanced stack hb)⟩

lemma passes_cons (h : c.ahead = t :: c'.ahead) (ho : t.kind.isOpen = false) (hc : t.kind.isClose = false) :
    c.Passes c' where
  suffix := by
    rw [h]
    exact List.suffix_cons t _
  balanced stack hb := by
    simpa [h, isBalanced, ho, hc] using hb

lemma pastSemis_passes : c.Passes c.pastSemis where
  suffix := pastSemis_suffix
  balanced stack hb := by
    obtain ⟨b, ts⟩ := c
    change isBalanced stack (ts.map Token.lexeme) at hb
    change isBalanced stack ((ts.dropWhile (·.kind = .semi)).map Token.lexeme)
    induction ts with
    | nil => exact hb
    | cons t ts ih =>
      by_cases ht : t.kind = .semi
      · rw [List.dropWhile_cons_of_pos (by simpa using ht)]
        exact ih (by simpa [isBalanced, ht, Kind.isOpen, Kind.isClose] using hb)
      · rwa [List.dropWhile_cons_of_neg (by simpa using ht)]

lemma Reads.refl : c.Reads [] c := ⟨rfl, rfl, by simp, fun _ h => h⟩

lemma Reads.trans (h : c.Reads ts d) (h' : d.Reads us c') : c.Reads (ts ++ us) c' where
  ahead := by rw [h.ahead, h'.ahead, List.append_assoc]
  behind := by
    rw [h'.behind, h.behind]
    rcases List.eq_nil_or_concat us with rfl | ⟨us, t, rfl⟩
    · simp
    · simp [List.concat_eq_append, ← List.append_assoc]
  last := by
    rcases List.eq_nil_or_concat us with rfl | ⟨us, t, rfl⟩
    · simpa using h.last
    · have := h'.last
      simp only [List.concat_eq_append, ← List.append_assoc, List.getLast?_concat] at this ⊢
      exact this
  balanced stack hb := h'.balanced stack (h.balanced stack hb)

lemma Reads.suffix (h : c.Reads ts c') : c'.ahead <:+ c.ahead := ⟨ts, h.ahead.symm⟩

lemma Reads.passes (h : c.Reads ts c') : c.Passes c' := ⟨h.suffix, h.balanced⟩

lemma Reads.ne_nil (h : c.Reads ts c') (hlt : c'.size < c.size) : ts ≠ [] := by
  rintro rfl
  rw [size, size, h.ahead] at hlt
  exact Nat.lt_irrefl _ hlt

lemma reads_cons (h : c.ahead = t :: ts) (ht : t.kind.isSolitary) : c.Reads [t] ⟨t.stop, ts⟩ := by
  simp only [Kind.isSolitary, Bool.and_eq_true, Bool.not_eq_true', decide_eq_true_eq] at ht
  exact ⟨h, rfl, by simpa using ht.1.1, Passes.balanced (passes_cons h ht.1.2 ht.2)⟩

lemma advance_reads {k : Kind} (h : c.kind? = some k) (hk : k.isSolitary) : ∃ ts, c.Reads ts c.advance := by
  obtain ⟨t, ts, e, rfl⟩ := kind?_eq_some h
  rw [advance, e]
  exact ⟨[t], reads_cons e hk⟩

lemma expect_reads {k : Kind} (h : c.expect k goal = .ok (t, c')) (hk : k.isSolitary) : c.Reads [t] c' := by
  obtain ⟨h₁, rfl, h₂⟩ := Cursor.expect_eq_ok_iff.1 h
  obtain ⟨b, ts⟩ := c'
  obtain rfl : b = t.stop := h₂
  exact reads_cons h₁ hk

lemma endDeclaration_eq_ok (h : c.endDeclaration = .ok c') :
    (c.ahead = [] ∧ c' = c) ∨ ∃ t, t.kind = .semi ∧ c.ahead = t :: c'.ahead ∧ c'.behind = t.stop := by
  unfold endDeclaration at h
  split at h
  · next e =>
    cases h
    exact .inl ⟨e, rfl⟩
  · next t ts e =>
    split at h
    · next ht =>
      cases h
      exact .inr ⟨t, ht, e, rfl⟩
    · exact absurd h unmet_ne_ok

end Cursor

/-! ### Groups -/

/-- How many brackets are open behind a token. -/
def Kind.depthBehind (n : Nat) (k : Kind) : Nat := if k.isOpen then n + 1 else if k.isClose then n - 1 else n

lemma Kind.isOpen_of_isClose {k : Kind} (h : k.isClose) : k.isOpen = false := by
  revert h
  cases k <;> decide

/-- Either a token closes the group, or the group goes on behind it. -/
lemma cutGroup?_cons_eq_some {n : Nat} :
    cutGroup? n (t :: ts) = some (inner, close, rest) ↔
      (t.kind.isClose ∧ n = 0) ∧ inner = [] ∧ t = close ∧ ts = rest ∨
      (t.kind.isClose → n ≠ 0) ∧ ∃ inner', inner = t :: inner' ∧ cutGroup? (t.kind.depthBehind n) ts = some (inner', close, rest) := by
  by_cases hend : t.kind.isClose ∧ n = 0
  · obtain ⟨hc, rfl⟩ := hend
    simp [cutGroup?, hc, Kind.isOpen_of_isClose hc, eq_comm]
  · have hcut : cutGroup? n (t :: ts) =
        (cutGroup? (t.kind.depthBehind n) ts).map fun r => (t :: r.1, r.2.1, r.2.2) := by
      simp only [cutGroup?, Kind.depthBehind]
      by_cases ho : t.kind.isOpen
      · simp only [ho, if_true]
      by_cases hc : t.kind.isClose
      · obtain ⟨m, rfl⟩ := Nat.exists_eq_succ_of_ne_zero fun hn => hend ⟨hc, hn⟩
        simp only [ho, hc, if_true, if_false, Bool.false_eq_true, Nat.succ_sub_one]
      · simp only [ho, hc, if_false, Bool.false_eq_true]
    rw [hcut, Option.map_eq_some_iff]
    constructor
    · rintro ⟨⟨i, c, r⟩, h, e⟩
      cases e
      exact .inr ⟨fun hc hn => hend ⟨hc, hn⟩, i, rfl, h⟩
    · rintro (⟨h, -⟩ | ⟨-, i, rfl, h⟩)
      · exact absurd h hend
      · exact ⟨_, h, rfl⟩

/-- A group ends at its closing bracket. -/
lemma cutGroup?_close {n : Nat} :
    cutGroup? n (close :: rest) = some ([], close, rest) ↔ close.kind.isClose ∧ n = 0 := by
  simp [cutGroup?_cons_eq_some]

/-- A group goes on behind what stands in it. -/
lemma cutGroup?_inner {n : Nat} :
    cutGroup? n (t :: ts) = some (t :: inner, close, rest) ↔
      (t.kind.isClose → n ≠ 0) ∧ cutGroup? (t.kind.depthBehind n) ts = some (inner, close, rest) := by
  simp [cutGroup?_cons_eq_some]

lemma cutGroup?_eq_some {n : Nat} (h : cutGroup? n ts = some (inner, close, rest)) :
    ts = inner ++ close :: rest ∧ close.kind.isClose := by
  induction ts generalizing n inner with
  | nil => cases h
  | cons t ts ih =>
    rcases cutGroup?_cons_eq_some.1 h with ⟨⟨hclose, -⟩, rfl, rfl, rfl⟩ | ⟨-, inner, rfl, hcut⟩
    · exact ⟨rfl, hclose⟩
    · obtain ⟨rfl, hclose⟩ := ih hcut
      exact ⟨rfl, hclose⟩

/-- A group without groups in it ends at the first closing bracket. -/
lemma cutGroup?_of_flat (h : ∀ t ∈ inner, t.kind.isOpen = false ∧ t.kind.isClose = false) (hclose : close.kind.isClose)
    (hopen : close.kind.isOpen = false) : cutGroup? 0 (inner ++ close :: rest) = some (inner, close, rest) := by
  induction inner with
  | nil => simp [cutGroup?, hclose, hopen]
  | cons t inner ih =>
    have ht := h t List.mem_cons_self
    have ih := ih fun u hu => h u (List.mem_cons_of_mem _ hu)
    simp [cutGroup?, ht.1, ht.2, ih]

/-- In brackets that match, a group ends in the bracket that closes it, and those behind it match too. -/
lemma closer?_of_cutGroup? {k : Kind} {stack inside : List Kind} (h : cutGroup? inside.length ts = some (inner, close, rest))
    (hb : isBalanced (inside ++ k :: stack) (ts.map Token.lexeme)) :
    k.closer? = some close.kind ∧ isBalanced stack (rest.map Token.lexeme) := by
  induction ts generalizing inside inner with
  | nil => cases h
  | cons t ts ih =>
    simp only [List.map_cons, isBalanced, Token.lexeme_kind] at hb
    rcases cutGroup?_cons_eq_some.1 h with ⟨⟨hc, hinside⟩, rfl, rfl, rfl⟩ | ⟨hinside, inner, rfl, hcut⟩
    · rw [List.length_eq_zero_iff.1 hinside] at hb
      simp only [Kind.isOpen_of_isClose hc, hc, if_true, if_false, Bool.false_eq_true, List.nil_append, Bool.and_eq_true] at hb
      exact ⟨of_decide_eq_true hb.1, hb.2⟩
    unfold Kind.depthBehind at hcut
    by_cases ho : t.kind.isOpen
    · simp only [ho, if_true] at hb hcut
      exact @ih _ (t.kind :: inside) hcut hb
    by_cases hc : t.kind.isClose
    · obtain ⟨i, inside, rfl⟩ := List.exists_cons_of_ne_nil fun e => hinside hc (congrArg List.length e)
      simp only [ho, hc, if_true, if_false, Bool.false_eq_true, List.cons_append, Bool.and_eq_true] at hb hcut
      exact ih hcut hb.2
    · simp only [ho, hc, if_false, Bool.false_eq_true] at hb hcut
      exact ih hcut hb

namespace Cursor

/-- Whether a group is read: an opening token and what it cuts off. -/
lemma group_eq_ok {g : Group} (h : c.group = .ok (g, c')) :
    ∃ o inner close, c.ahead = o :: (inner ++ close :: c'.ahead) ∧
      cutGroup? 0 (inner ++ close :: c'.ahead) = some (inner, close, c'.ahead) ∧ g = ⟨inner, o.start, close.stop⟩ ∧
      c'.behind = close.stop := by
  unfold group at h
  split at h
  · cases h
  · next o ts e =>
    split at h
    · next inner close rest e' =>
      cases h
      obtain ⟨rfl, -⟩ := cutGroup?_eq_some e'
      exact ⟨o, inner, close, e, e', rfl, rfl⟩
    · cases h

lemma kind?_advance {k : Kind} (h : c.kindAt? 1 = some k) : c.advance.kind? = some k := by
  obtain ⟨b, ts⟩ := c
  rcases ts with _ | ⟨t, ts⟩
  · cases h
  · simpa [kindAt?, kind?, advance, List.head?_eq_getElem?] using h

lemma group_reads {g : Group} {k : Kind} (hk : c.kind? = some k) (ho : k.isOpen) (h : c.group = .ok (g, c')) :
    ∃ ts, c.Reads ts c' := by
  obtain ⟨o, inner, close, e, e', -, hb⟩ := group_eq_ok h
  have hclose := (cutGroup?_eq_some e').2
  obtain rfl : o.kind = k := by simpa [kind?, e] using hk
  refine ⟨o :: (inner ++ [close]), ?_, ?_, ?_, ?_⟩
  · rw [e]
    simp
  · rw [hb, ← List.cons_append, List.getLast?_concat]
    rfl
  · rw [← List.cons_append]
    simp only [List.getLast?_concat, Option.mem_def, Option.some.injEq, forall_eq']
    intro hk
    rw [hk] at hclose
    cases hclose
  · intro stack hbalanced
    simp only [e, List.map_cons, isBalanced, Token.lexeme_kind, ho, if_true] at hbalanced
    have hinside : cutGroup? ([] : List Kind).length _ = some _ := e'
    exact (closer?_of_cutGroup? hinside hbalanced).2

lemma groupIf_reads {b : Bool} (hb : b → c.kind? = some .lbracket) (h : c.groupIf b = .ok c') : ∃ ts, c.Reads ts c' := by
  unfold groupIf at h
  split at h
  · next hcondition =>
    obtain ⟨p, e, rfl⟩ := exists_of_map_eq_ok h
    exact group_reads (hb hcondition) rfl e
  · cases h
    exact ⟨[], .refl⟩

lemma skip_reads {k : Kind} (hk : k.isSolitary) : ∃ ts, c.Reads ts (c.skip k) := by
  unfold skip
  split
  · next h => exact advance_reads h hk
  · exact ⟨[], .refl⟩

/-! ### Readers of declarations -/

lemma skipStatement_reads (h : c.skipStatement = .ok c') : ∃ ts, c.Reads ts c' := by
  fun_induction skipStatement c with
  | case1 | case2 | case3 => cases h; exact ⟨[], .refl⟩
  | case4 | case5 | case6 | case7 | case8 => exact absurd h unmet_ne_ok
  | case9 => cases h
  | case10 c k _ _ _ _ _ _ _ hk ho g d e _ ih =>
    obtain ⟨ts, h₁⟩ := group_reads hk ho e
    obtain ⟨us, h₂⟩ := ih h
    exact ⟨_, h₁.trans h₂⟩
  | case11 => exact absurd h unmet_ne_ok
  | case12 c k hsemi _ _ _ _ _ _ hk ho hc _ ih =>
    obtain ⟨ts, h₁⟩ := advance_reads hk (isSolitary_of_not hsemi ho hc)
    obtain ⟨us, h₂⟩ := ih h
    exact ⟨_, h₁.trans h₂⟩

lemma structFields?_reads {r : Option (List Field)} (h : c.structFields? = .ok (r, c')) : ∃ ts, c.Reads ts c' := by
  unfold structFields? at h
  split at h
  · next hk =>
    split at h
    · cases h
    · next g d e =>
      obtain ⟨fs, e', h⟩ := exists_of_map_eq_ok h
      simp only [Prod.mk.injEq] at h
      obtain ⟨-, rfl⟩ := h
      obtain ⟨ts, h₁⟩ := advance_reads hk.1 (by decide)
      obtain ⟨us, h₂⟩ := group_reads (kind?_advance hk.2) rfl e
      exact ⟨_, h₁.trans h₂⟩
  · cases h
    exact ⟨[], .refl⟩

lemma typeSpec_reads {s : TypeSpec} (h : c.typeSpec = .ok (s, c')) : ∃ ts, c.Reads ts c' := by
  obtain ⟨name, d, d', fields, e, hname, hgroup, hfields, hskip, rfl⟩ := typeSpec_eq_ok_iff.1 h
  have h₁ := expect_reads hname (by decide)
  obtain ⟨ts₂, h₂⟩ := groupIf_reads (fun h => by simp only [atTypeParameters, decide_eq_true_eq] at h; exact h.1) hgroup
  obtain ⟨ts₃, h₃⟩ := skip_reads (c := d') (k := .assign) (by decide)
  obtain ⟨ts₄, h₄⟩ := structFields?_reads hfields
  obtain ⟨ts₅, h₅⟩ := skipStatement_reads hskip
  exact ⟨_, (((h₁.trans h₂).trans h₃).trans h₄).trans h₅⟩

lemma declaredNames_reads {names : List Text} (h : c.declaredNames = .ok (names, c')) : ∃ ts, c.Reads ts c' := by
  fun_induction declaredNames c generalizing names with
  | case1 => cases h
  | case2 c t d e hk _ ih =>
    obtain ⟨p, e', h⟩ := exists_of_map_eq_ok h
    simp only [Prod.mk.injEq] at h
    obtain ⟨-, rfl⟩ := h
    obtain ⟨ts, h₁⟩ := advance_reads hk (by decide)
    obtain ⟨us, h₂⟩ := ih e'
    exact ⟨_, ((expect_reads e (by decide)).trans h₁).trans h₂⟩
  | case3 c t d e =>
    cases h
    exact ⟨_, expect_reads e (by decide)⟩

lemma valueSpec_reads {names : List Text} (h : c.valueSpec = .ok (names, c')) : ∃ ts, c.Reads ts c' := by
  obtain ⟨d, hnames, hskip⟩ := valueSpec_eq_ok_iff.1 h
  obtain ⟨ts₁, h₁⟩ := declaredNames_reads hnames
  obtain ⟨ts₂, h₂⟩ := skipStatement_reads hskip
  exact ⟨_, h₁.trans h₂⟩

lemma functionBody_reads {b : Option Span} (h : c.functionBody = .ok (b, c')) : ∃ ts, c.Reads ts c' := by
  fun_induction functionBody c with
  | case1 | case2 => cases h; exact ⟨[], .refl⟩
  | case3 => cases h
  | case4 c k _ hk hl g d e _ ih =>
    obtain ⟨ts, h₁⟩ := advance_reads hk (by rcases hl.1 with rfl | rfl <;> rfl)
    obtain ⟨us, h₂⟩ := group_reads (kind?_advance hl.2) rfl e
    obtain ⟨vs, h₃⟩ := ih h
    exact ⟨_, (h₁.trans h₂).trans h₃⟩
  | case5 c _ hk =>
    obtain ⟨p, e, h⟩ := exists_of_map_eq_ok h
    simp only [Prod.mk.injEq] at h
    obtain ⟨-, rfl⟩ := h
    exact group_reads hk rfl e
  | case6 => cases h
  | case7 c k _ hk _ _ ho g d e _ ih =>
    obtain ⟨ts, h₁⟩ := group_reads hk ho e
    obtain ⟨us, h₂⟩ := ih h
    exact ⟨_, h₁.trans h₂⟩
  | case8 => exact absurd h unmet_ne_ok
  | case9 c k hsemi hk _ _ ho hc _ ih =>
    obtain ⟨ts, h₁⟩ := advance_reads hk (isSolitary_of_not hsemi ho hc)
    obtain ⟨us, h₂⟩ := ih h
    exact ⟨_, h₁.trans h₂⟩

lemma receiver?_reads {r : Option Receiver} (h : c.receiver? = .ok (r, c')) : ∃ ts, c.Reads ts c' := by
  obtain ⟨hk, g, x, hgroup, -, -⟩ | ⟨-, -, rfl⟩ := receiver?_eq_ok_iff.1 h
  · exact group_reads hk rfl hgroup
  · exact ⟨[], .refl⟩

lemma parameters_reads {g : Group} (h : c.parameters = .ok (g, c')) : ∃ ts, c.Reads ts c' := by
  unfold parameters at h
  split at h
  · next hk => exact group_reads hk rfl h
  · exact absurd h unmet_ne_ok

/-- A function is read up to its body, and with it. -/
lemma function_eq_ok {f : Function} (h : c.function = .ok (f, c')) :
    ∃ ts d, c.Reads ts d ∧ d.functionBody = .ok (f.body, c') := by
  obtain ⟨receiver, d, name, d', e, parameters, e', body, hreceiver, hname, hgroup, hparameters, hbody, rfl⟩ :=
    function_eq_ok_iff.1 h
  obtain ⟨ts₁, h₁⟩ := receiver?_reads hreceiver
  have h₂ := expect_reads hname (by decide)
  obtain ⟨ts₃, h₃⟩ := groupIf_reads of_decide_eq_true hgroup
  obtain ⟨ts₄, h₄⟩ := parameters_reads hparameters
  exact ⟨_, e', ((h₁.trans h₂).trans h₃).trans h₄, hbody⟩

lemma function_reads {f : Function} (h : c.function = .ok (f, c')) : ∃ ts, c.Reads ts c' := by
  obtain ⟨ts, d, h₁, h⟩ := function_eq_ok h
  obtain ⟨us, h₂⟩ := functionBody_reads h
  exact ⟨_, h₁.trans h₂⟩

lemma importSpec_reads {s : ImportSpec} (h : c.importSpec = .ok (s, c')) :
    ∃ ts t, c.Reads (ts ++ [t]) c' ∧ s.span.stop = t.stop := by
  obtain ⟨b, ahead⟩ := c'
  obtain ⟨t, hpath, rfl, ⟨hahead, rfl⟩ | ⟨u, hname, hahead, rfl⟩⟩ := importSpec_eq_ok_iff.1 h
  · refine ⟨[], t, reads_cons hahead ?_, rfl⟩
    rcases hpath with hk | hk <;> rw [hk] <;> decide
  · refine ⟨[u], t, (reads_cons hahead ?_).trans (reads_cons (c := ⟨u.stop, t :: ahead⟩) rfl ?_), rfl⟩
    · rcases hname with hk | hk <;> rw [hk] <;> decide
    · rcases hpath with hk | hk <;> rw [hk] <;> decide

/-- Items are read up to a parenthesis, and with it. -/
lemma untilParen_eq_ok {item : ItemReader α} {as : List α} (hitem : ∀ d a d', item.read d = .ok (a, d') → d.Passes d')
    (h : item.untilParen goal c = .ok (as, c')) :
    ∃ d close, c.Passes d ∧ d.ahead = close :: c'.ahead ∧ close.kind = .rparen ∧ c'.behind = close.stop := by
  fun_induction item.untilParen goal c generalizing as with
  | case1 c => exact absurd h unmet_ne_ok
  | case2 c hk =>
    cases h
    obtain ⟨t, ts, e, ht⟩ := kind?_eq_some hk
    refine ⟨_, t, pastSemis_passes, ?_, ht, ?_⟩ <;> rw [advance, e]
  | case3 => cases h
  | case4 c k hk hk' a d e hlt ih =>
    obtain ⟨r, e', h⟩ := exists_of_map_eq_ok h
    simp only [Prod.mk.injEq] at h
    obtain ⟨-, rfl⟩ := h
    obtain ⟨f, close, hpass, hclose⟩ := ih e'
    exact ⟨f, close, (pastSemis_passes.trans (hitem _ _ _ e)).trans hpass, hclose⟩

lemma oneOrGroup_reads {one many : ItemReader α} {r : List α × Bool}
    (hone : ∀ d a d', one.read d = .ok (a, d') → ∃ ts, d.Reads ts d')
    (hmany : ∀ d a d', many.read d = .ok (a, d') → d.Passes d') (h : oneOrGroup one many goal c = .ok (r, c')) :
    ∃ ts, c.Reads ts c' := by
  unfold oneOrGroup at h
  split at h
  · next hk =>
    obtain ⟨p, e, h⟩ := exists_of_map_eq_ok h
    simp only [Prod.mk.injEq] at h
    obtain ⟨-, rfl⟩ := h
    obtain ⟨o, ts, ho, hkind⟩ := kind?_eq_some hk
    obtain ⟨d, close, hpass, hd, hclose, hbehind⟩ := untilParen_eq_ok hmany e
    obtain ⟨us, hus⟩ := hpass.suffix
    have hadvance : c.advance.ahead = ts := by rw [advance, ho]
    refine ⟨o :: (us ++ [close]), ?_, ?_, ?_, ?_⟩
    · rw [ho, ← hadvance, ← hus, hd]
      simp
    · rw [hbehind, ← List.cons_append, List.getLast?_concat]
      rfl
    · rw [← List.cons_append, List.getLast?_concat]
      rintro t ⟨⟩
      rw [hclose]
      decide
    · intro stack hb
      have hinside := hpass.balanced (.lparen :: stack) (by
        rw [hadvance]
        simpa [ho, isBalanced, hkind, Kind.isOpen] using hb)
      simpa [hd, isBalanced, hclose, Kind.isOpen, Kind.isClose, Kind.closer?] using hinside
  · obtain ⟨p, e, h⟩ := exists_of_map_eq_ok h
    simp only [Prod.mk.injEq] at h
    obtain ⟨-, rfl⟩ := h
    exact hone _ p.1 _ e

lemma reads_of_one {item : ItemReader α} {r : List α × Bool}
    (hitem : ∀ d a d', item.read d = .ok (a, d') → ∃ ts, d.Reads ts d') (h : oneOrGroup item item goal c = .ok (r, c')) :
    ∃ ts, c.Reads ts c' :=
  oneOrGroup_reads hitem (fun d a d' h => (hitem d a d' h).elim fun _ h => h.passes) h

/-- **A declaration is read from its keyword on.** -/
lemma declKind_reads {kind : DeclKind} (h : c.declKind = .ok (kind, c')) :
    ∃ t ts, c.Reads (t :: ts) c' ∧ t.kind ∈ [.typeWord, .funcWord, .varWord, .constWord] := by
  have keyword : ∀ {k : Kind} {ts : List Token}, c.kind? = some k → k ∈ [.typeWord, .funcWord, .varWord, .constWord] →
      c.advance.Reads ts c' → ∃ t ts, c.Reads (t :: ts) c' ∧ t.kind ∈ [.typeWord, .funcWord, .varWord, .constWord] := by
    intro k ts hk hmem h
    obtain ⟨t, us, e, rfl⟩ := kind?_eq_some hk
    rw [advance, e] at h
    have hkeyword : ∀ k ∈ [Kind.typeWord, .funcWord, .varWord, .constWord], k.isSolitary := by decide
    exact ⟨t, ts, (reads_cons e (hkeyword _ hmem)).trans h, hmem⟩
  unfold declKind at h
  split at h
  · next hk =>
    obtain ⟨⟨r, d⟩, e, hp⟩ := exists_of_map_eq_ok h
    cases hp
    obtain ⟨ts, h⟩ := reads_of_one (fun _ _ _ h => typeSpec_reads h) e
    exact keyword hk (by decide) h
  · next hk =>
    obtain ⟨⟨f, d⟩, e, hp⟩ := exists_of_map_eq_ok h
    cases hp
    obtain ⟨ts, h⟩ := function_reads e
    exact keyword hk (by decide) h
  · next hk =>
    obtain ⟨⟨r, d⟩, e, hp⟩ := exists_of_map_eq_ok h
    cases hp
    obtain ⟨ts, h⟩ := reads_of_one (fun _ _ _ h => valueSpec_reads h) e
    exact keyword hk (by decide) h
  · next hk =>
    obtain ⟨⟨r, d⟩, e, hp⟩ := exists_of_map_eq_ok h
    cases hp
    obtain ⟨ts, h⟩ := reads_of_one (fun _ _ _ h => valueSpec_reads h) e
    exact keyword hk (by decide) h
  · exact absurd h unmet_ne_ok
  · exact absurd h unmet_ne_ok

lemma decl_eq_ok {d : Decl} (h : c.decl = .ok (d, c')) :
    ∃ e, c.declKind = .ok (d.kind, e) ∧ e.endDeclaration = .ok c' ∧ d.span = ⟨c.start, e.behind⟩ := by
  obtain ⟨kind, e, hkind, hend, rfl⟩ := decl_eq_ok_iff.1 h
  exact ⟨e, hkind, hend, rfl⟩

lemma endDeclaration_passes (h : c.endDeclaration = .ok c') : c.Passes c' := by
  rcases endDeclaration_eq_ok h with ⟨-, rfl⟩ | ⟨t, ht, e, -⟩
  · exact .refl
  · exact passes_cons e (by rw [ht]; rfl) (by rw [ht]; rfl)

lemma decl_passes {d : Decl} (h : c.decl = .ok (d, c')) : c.Passes c' := by
  obtain ⟨e, h₁, h₂, -⟩ := decl_eq_ok h
  obtain ⟨t, ts, h₁, -⟩ := declKind_reads h₁
  exact h₁.passes.trans (endDeclaration_passes h₂)

lemma mem_decls {ds : List Decl} {x : Decl} (h : c.decls = .ok ds) (hx : x ∈ ds) :
    ∃ e e' : Cursor, c.Passes e ∧ e.decl = .ok (x, e') := by
  fun_induction Cursor.decls c generalizing ds with
  | case1 =>
    cases h
    cases hx
  | case2 => cases h
  | case3 c hk d e hd hlt ih =>
    obtain ⟨ds', e', rfl⟩ := exists_of_map_eq_ok h
    rcases List.mem_cons.1 hx with rfl | hx
    · exact ⟨_, _, pastSemis_passes, hd⟩
    · obtain ⟨a, a', h₁, h₂⟩ := ih e' hx
      exact ⟨a, a', (pastSemis_passes.trans (decl_passes hd)).trans h₁, h₂⟩

end Cursor

/-! ### Offsets in a tree -/

section Offsets

variable {s : Text} {n : Nat}

/-- Whether a text can be cut where a cursor stands and around the tokens ahead. -/
def Cursor.IsIn (s : Text) (c : Cursor) : Prop := IsBoundary s c.behind ∧ ∀ t ∈ c.ahead, t.IsIn s

namespace Cursor

lemma IsIn.pastSemis (h : c.IsIn s) : c.pastSemis.IsIn s := ⟨h.1, fun t ht => h.2 t (pastSemis_suffix.mem ht)⟩

lemma IsIn.isBoundary_start (h : c.IsIn s) : IsBoundary s c.start := by
  unfold start
  rcases hc : c.ahead with _ | ⟨t, ts⟩
  · exact h.1
  · exact (h.2 t (by rw [hc]; exact List.mem_cons_self)).1

lemma Reads.isIn (h : c.Reads ts c') (hc : c.IsIn s) : c'.IsIn s := by
  refine ⟨?_, fun t ht => hc.2 t (h.suffix.mem ht)⟩
  rw [h.behind]
  rcases List.eq_nil_or_concat ts with rfl | ⟨ts, t, rfl⟩
  · exact hc.1
  · rw [List.concat_eq_append, List.getLast?_concat]
    exact (hc.2 t (by rw [h.ahead]; simp)).2

lemma IsIn.endDeclaration (h : c.IsIn s) (h' : c.endDeclaration = .ok c') : c'.IsIn s := by
  rcases endDeclaration_eq_ok h' with ⟨-, rfl⟩ | ⟨t, -, e, hb⟩
  · exact h
  · refine ⟨?_, fun u hu => h.2 u (by rw [e]; exact List.mem_cons_of_mem _ hu)⟩
    rw [hb]
    exact (h.2 t (by rw [e]; exact List.mem_cons_self)).2

lemma groupedImportSpec_eq_ok {spec : ImportSpec} (h : c.groupedImportSpec = .ok (spec, c')) :
    ∃ d, c.importSpec = .ok (spec, d) ∧ d.Passes c' := by
  obtain ⟨d, hspec, ⟨-, rfl⟩ | ⟨-, t, hsemi⟩⟩ := groupedImportSpec_eq_ok_iff.1 h
  · exact ⟨d, hspec, .refl⟩
  · obtain ⟨hahead, hk, -⟩ := Cursor.expect_eq_ok_iff.1 hsemi
    exact ⟨d, hspec, passes_cons hahead (by rw [hk]; rfl) (by rw [hk]; rfl)⟩

end Cursor

/-- Whether a text can be cut at the offsets of an import declaration. -/
structure ImportDecl.IsIn (s : Text) (i : ImportDecl) : Prop where
  start : IsBoundary s i.span.start
  stop : IsBoundary s i.span.stop
  specs : ∀ spec ∈ i.specs, IsBoundary s spec.span.stop

lemma importItem_reads {spec : ImportSpec} (h : importItem.read c = .ok (spec, c')) : ∃ ts, c.Reads ts c' :=
  (Cursor.importSpec_reads h).elim fun ts h => h.elim fun t h => ⟨ts ++ [t], h.1⟩

lemma groupedImportItem_passes {spec : ImportSpec} (h : groupedImportItem.read c = .ok (spec, c')) : c.Passes c' := by
  obtain ⟨d, h₁, h₂⟩ := Cursor.groupedImportSpec_eq_ok h
  obtain ⟨ts, h₁⟩ := importItem_reads h₁
  exact h₁.passes.trans h₂

lemma importDecl_reads {r : List ImportSpec × Bool} (hk : c.kind? = some .importWord)
    (h : oneOrGroup importItem groupedImportItem .importGroupEnd c.advance = .ok (r, c')) : ∃ ts, c.Reads ts c' := by
  obtain ⟨ts, h₁⟩ := Cursor.advance_reads hk (by decide)
  obtain ⟨us, h₂⟩ := Cursor.oneOrGroup_reads (fun _ _ _ h => importItem_reads h) (fun _ _ _ h => groupedImportItem_passes h) h
  exact ⟨_, h₁.trans h₂⟩

lemma importDecl_eq_ok {i : ImportDecl} (hk : c.kind? = some .importWord) (h : c.importDecl = .ok (i, c')) :
    ∃ ts d, oneOrGroup importItem groupedImportItem .importGroupEnd c.advance = .ok ((i.specs, i.grouped), d) ∧
      c.Reads ts d ∧ d.endDeclaration = .ok c' ∧ i.span = ⟨c.start, d.behind⟩ := by
  obtain ⟨specs, grouped, d, hspecs, hend, rfl⟩ := Cursor.importDecl_eq_ok_iff.1 h
  obtain ⟨ts, hreads⟩ := importDecl_reads hk hspecs
  exact ⟨ts, d, hspecs, hreads, hend, rfl⟩

lemma importDecl_isIn {i : ImportDecl} (hc : c.IsIn s) (hk : c.kind? = some .importWord) (h : c.importDecl = .ok (i, c')) :
    i.IsIn s ∧ c'.IsIn s := by
  obtain ⟨ts, d, e, hread, hend, hspan⟩ := importDecl_eq_ok hk h
  have hd : d.IsIn s := hread.isIn hc
  have hspec : ∀ (d : Cursor) spec d', d.ahead <:+ c.ahead → d.importSpec = .ok (spec, d') →
      IsBoundary s spec.span.stop ∧ d'.ahead <:+ c.ahead := by
    intro d spec d' hd h
    obtain ⟨ts, t, h, hstop⟩ := Cursor.importSpec_reads h
    refine ⟨?_, h.suffix.trans hd⟩
    rw [hstop]
    exact (hc.2 t (hd.mem (by rw [h.ahead]; simp))).2
  have hgrouped : ∀ (d : Cursor) spec d', d.ahead <:+ c.ahead → d.groupedImportSpec = .ok (spec, d') →
      IsBoundary s spec.span.stop ∧ d'.ahead <:+ c.ahead := by
    intro d spec d' hd h
    obtain ⟨a, h₁, h₂⟩ := Cursor.groupedImportSpec_eq_ok h
    obtain ⟨h₁, h₃⟩ := hspec _ _ _ hd h₁
    exact ⟨h₁, h₂.suffix.trans h₃⟩
  have hspecs := oneOrGroup_forall (P := fun spec => IsBoundary s spec.span.stop) advances_suffix hspec hgrouped advance_suffix e
  exact ⟨⟨by rw [hspan]; exact hc.isBoundary_start, by rw [hspan]; exact hd.1, hspecs.1⟩, hd.endDeclaration hend⟩

lemma imports_isIn {is : List ImportDecl} (hc : c.IsIn s) (h : c.imports = .ok (is, c')) :
    (∀ i ∈ is, i.IsIn s) ∧ c'.IsIn s := by
  fun_induction Cursor.imports c generalizing is with
  | case1 => cases h
  | case2 c hk i d e hlt ih =>
    obtain ⟨hi, hd⟩ := importDecl_isIn hc.pastSemis hk e
    obtain ⟨r, e', h⟩ := exists_of_map_eq_ok h
    simp only [Prod.mk.injEq] at h
    obtain ⟨rfl, rfl⟩ := h
    obtain ⟨his, hc'⟩ := ih hd e'
    exact ⟨by simpa using ⟨hi, his⟩, hc'⟩
  | case3 =>
    cases h
    exact ⟨by simp, hc⟩

lemma imports_passes {is : List ImportDecl} (h : c.imports = .ok (is, c')) : c.Passes c' := by
  fun_induction Cursor.imports c generalizing is with
  | case1 => cases h
  | case2 c hk i d e hlt ih =>
    obtain ⟨r, e', h⟩ := exists_of_map_eq_ok h
    simp only [Prod.mk.injEq] at h
    obtain ⟨-, rfl⟩ := h
    obtain ⟨ts, a, -, hread, hend, -⟩ := importDecl_eq_ok hk e
    exact (Cursor.pastSemis_passes.trans (hread.passes.trans (Cursor.endDeclaration_passes hend))).trans
      (ih e')
  | case3 =>
    cases h
    exact .refl

/-- How a tree is read: the package clause, the imports and the declarations. -/
lemma parse_eq_ok {tree : Tree} (h : parse s = .ok tree) :
    isWhole s ∧ isBalanced [] (lex s) ∧ ∃ package c is c' ds,
      (Cursor.mk 0 (statementTokens s)).pastSemis.packageClause = .ok (package, c) ∧ c.imports = .ok (is, c') ∧
      c'.decls = .ok ds ∧
      tree = Tree.withComments ((tokens s).filter (·.kind ≠ .blank)) ⟨package, is, ds⟩ := by
  obtain ⟨all, bare, hall, hbare, rfl⟩ := parse_eq_ok_iff.1 h
  obtain ⟨hs, hb, rfl⟩ := tokenize_eq_ok_iff.1 hall
  obtain ⟨p, c, is, c', ds, hclause, himports, hdecls, rfl⟩ := Cursor.file_eq_ok_iff.1 hbare
  exact ⟨hs, hb, p, c, is, c', ds, hclause, himports, hdecls, rfl⟩

lemma packageClause_eq_ok {p : PackageClause} (h : c.packageClause = .ok (p, c')) :
    ∃ keyword name d, c.Reads [keyword, name] d ∧ keyword.kind = .packageWord ∧ name.kind = .ident ∧
      d.endDeclaration = .ok c' ∧ p = ⟨name.text, ⟨keyword.start, name.stop⟩⟩ := by
  obtain ⟨keyword, d, name, e, hkeyword, hname, hend, rfl⟩ := Cursor.packageClause_eq_ok_iff.1 h
  have hreads := (Cursor.expect_reads hkeyword (by decide)).trans (Cursor.expect_reads hname (by decide))
  exact ⟨keyword, name, e, hreads, (Cursor.expect_eq_ok_iff.1 hkeyword).2.1, (Cursor.expect_eq_ok_iff.1 hname).2.1, hend, rfl⟩

/-- A declaration is read behind whole groups; the comment above it is attached afterwards. -/
lemma parse_decl {tree : Tree} {x : Decl} (h : parse s = .ok tree) (hx : x ∈ tree.decls) :
    ∃ y e e', (Cursor.mk 0 (statementTokens s)).Passes e ∧ e.decl = .ok (y, e') ∧
      x = { y with commentStart := commentStartAt ((tokens s).filter (·.kind ≠ .blank)) y.span.start } := by
  obtain ⟨-, -, package, c, is, c', ds, h₁, h₂, h₃, rfl⟩ := parse_eq_ok h
  obtain ⟨k, n, d, hd, -, -, hend, rfl⟩ := packageClause_eq_ok h₁
  obtain ⟨y, hy, rfl⟩ := List.mem_map.1 hx
  obtain ⟨e, e', hpass, hdecl⟩ := Cursor.mem_decls h₃ hy
  have hclause := Cursor.pastSemis_passes.trans (hd.passes.trans (Cursor.endDeclaration_passes hend))
  exact ⟨y, e, e', (hclause.trans (imports_passes h₂)).trans hpass, hdecl, rfl⟩

lemma isIn_statementTokens : (Cursor.mk 0 (statementTokens s)).IsIn s :=
  ⟨Text.isBoundary_zero, fun _ ht => isIn_of_mem_statementTokens ht⟩

/-- **A text can be cut at the offsets of its package clause and its imports.** -/
theorem parse_isBoundary {tree : Tree} (h : parse s = .ok tree) :
    IsBoundary s tree.package.span.stop ∧ ∀ i ∈ tree.imports, i.IsIn s := by
  obtain ⟨-, -, package, c, is, c', ds, h₁, h₂, h₃, rfl⟩ := parse_eq_ok h
  obtain ⟨k, n, d, hd, -, -, hend, rfl⟩ := packageClause_eq_ok h₁
  have hin : d.IsIn s := hd.isIn isIn_statementTokens.pastSemis
  have hstop : d.behind = n.stop := hd.behind
  refine ⟨by rw [← hstop] at *; exact hin.1, ?_⟩
  have his := (imports_isIn (hin.endDeclaration hend) h₂).1
  simp only [Tree.withComments, List.mem_map, forall_exists_index, and_imp]
  rintro _ i hi rfl
  exact ⟨(his i hi).start, (his i hi).stop, (his i hi).specs⟩

end Offsets

/-! ### Bodies of functions -/

section Bodies

variable {s : Text}

lemma functionBody_group {b : Span} (h : c.functionBody = .ok (some b, c')) :
    ∃ o inner close, (o :: (inner ++ close :: c'.ahead)) <:+ c.ahead ∧ o.kind = .lbrace ∧
      cutGroup? 0 (inner ++ close :: c'.ahead) = some (inner, close, c'.ahead) ∧ b = ⟨o.start, close.stop⟩ := by
  fun_induction Cursor.functionBody c with
  | case1 | case2 => cases h
  | case3 => cases h
  | case4 c k _ hk hl g d e _ ih =>
    obtain ⟨o, inner, close, hsuffix, hrest⟩ := ih h
    obtain ⟨ts, hg⟩ := Cursor.group_reads (Cursor.kind?_advance hl.2) rfl e
    exact ⟨o, inner, close, hsuffix.trans (hg.suffix.trans advance_suffix), hrest⟩
  | case5 c _ hk =>
    obtain ⟨p, e, h⟩ := exists_of_map_eq_ok h
    simp only [Prod.mk.injEq, Option.some.injEq] at h
    obtain ⟨rfl, rfl⟩ := h
    obtain ⟨o, inner, close, ho, hcut, hg, -⟩ := Cursor.group_eq_ok (g := p.1) e
    obtain ⟨t, ts, ht, hkind⟩ := Cursor.kind?_eq_some hk
    rw [ho] at ht
    obtain ⟨rfl, -⟩ := List.cons.inj ht
    exact ⟨o, inner, close, by simp [ho], hkind, hcut, by rw [hg]⟩
  | case6 => cases h
  | case7 c k _ hk _ _ ho g d e _ ih =>
    obtain ⟨o, inner, close, hsuffix, hrest⟩ := ih h
    obtain ⟨ts, hg⟩ := Cursor.group_reads hk ho e
    exact ⟨o, inner, close, hsuffix.trans hg.suffix, hrest⟩
  | case8 => exact absurd h Cursor.unmet_ne_ok
  | case9 c k _ hk _ _ _ _ _ ih =>
    obtain ⟨o, inner, close, hsuffix, hrest⟩ := ih h
    exact ⟨o, inner, close, hsuffix.trans advance_suffix, hrest⟩

/-- The character of a bracket. -/
def Kind.bracket? : Kind → Option Char
  | lbrace => some '{'
  | rbrace => some '}'
  | lparen => some '('
  | rparen => some ')'
  | lbracket => some '['
  | rbracket => some ']'
  | _ => none

lemma bracket?_wordKind {w : Text} : (wordKind w).bracket? = none := by
  fun_cases wordKind w <;> rfl

lemma munch_bracket {x b : Char} {y : Text} (h : (munch x y).1.bracket? = some b) : x = b ∧ (munch x y).2 = 0 := by
  unfold munch at h ⊢
  split at h
  · cases h
  split at h
  · rw [bracket?_wordKind] at h
    cases h
  split at h
  · cases h
  next h₁ h₂ h₃ =>
  rw [if_neg h₁, if_neg h₂, if_neg h₃]
  split at h
  case h_2 | h_3 =>
    rcases munchQuoted_fst with e | e <;> rw [e] at h <;> cases h
  case h_4 =>
    rcases munchRaw_fst with e | e <;> rw [e] at h <;> cases h
  case h_13 => split at h <;> cases h
  case h_14 => rcases munchSlash_fst with e | e | e <;> rw [e] at h <;> cases h
  case h_15 =>
    split at h
    · rcases munchOperator_fst with e | e | e | e <;> rw [e] at h <;> cases h
    · cases h
  all_goals
    cases h
    try exact ⟨rfl, rfl⟩

/-- A bracket is a single character. -/
lemma text_of_bracket {l : Lexeme} {b : Char} (h : l ∈ lex s) (hb : l.kind.bracket? = some b) : l.text = [b] := by
  obtain ⟨xs, ys, e⟩ := List.append_of_mem h
  have h' : lex (joined (l :: ys)) = l :: ys := lex_joined_right e
  obtain ⟨x, u, y, -, hm, ht, -⟩ := lex_cons_inv h'
  have hmunch := munch_bracket (x := x) (y := u ++ y) (b := b) (by rw [hm]; exact hb)
  rw [hm] at hmunch
  obtain rfl := List.length_eq_zero_iff.1 hmunch.2
  rw [ht, hmunch.1]

lemma wordKind_ne_semi {w : Text} : wordKind w ≠ .semi := by
  fun_cases wordKind w <;> simp

lemma munch_semi {x : Char} {y : Text} (h : (munch x y).1 = .semi) : x = ';' ∧ (munch x y).2 = 0 := by
  unfold munch at h ⊢
  split at h
  · cases h
  split at h
  · exact absurd h wordKind_ne_semi
  split at h
  · cases h
  next h₁ h₂ h₃ =>
  rw [if_neg h₁, if_neg h₂, if_neg h₃]
  split at h
  case h_2 | h_3 =>
    rcases munchQuoted_fst with e | e <;> rw [e] at h <;> cases h
  case h_4 =>
    rcases munchRaw_fst with e | e <;> rw [e] at h <;> cases h
  case h_12 => exact ⟨rfl, rfl⟩
  case h_13 => split at h <;> cases h
  case h_14 => rcases munchSlash_fst with e | e | e <;> rw [e] at h <;> cases h
  case h_15 =>
    split at h
    · rcases munchOperator_fst with e | e | e | e <;> rw [e] at h <;> cases h
    · cases h
  all_goals cases h

/-- A semicolon is a single character. -/
lemma text_of_semi {l : Lexeme} (h : l ∈ lex s) (hk : l.kind = .semi) : l.text = [';'] := by
  obtain ⟨xs, ys, e⟩ := List.append_of_mem h
  have h' : lex (joined (l :: ys)) = l :: ys := lex_joined_right e
  obtain ⟨x, u, y, -, hm, ht, -⟩ := lex_cons_inv h'
  have hmunch := munch_semi (x := x) (y := u ++ y) (by rw [hm]; exact hk)
  rw [hm] at hmunch
  obtain rfl := List.length_eq_zero_iff.1 hmunch.2
  rw [ht, hmunch.1]

lemma isBalanced_statementLexemes {stack : List Kind} {e : Bool} {ls : List Lexeme} :
    isBalanced stack (statementLexemes e ls) = isBalanced stack ls := by
  induction ls generalizing stack e with
  | nil => cases e <;> rfl
  | cons l ls ih =>
    have hsemi : ∀ xs, isBalanced stack (.impliedSemi :: xs) = isBalanced stack xs := fun _ => rfl
    have hskip : l.kind.isOpen = false → l.kind.isClose = false → isBalanced stack (l :: ls) = isBalanced stack ls := by
      intro h₁ h₂
      simp [isBalanced, h₁, h₂]
    by_cases hbreak : l.breaksLine
    · have hk : l.kind = .newline ∨ l.kind = .blockComment := by
        simp only [Lexeme.breaksLine, decide_eq_true_eq] at hbreak
        exact hbreak.imp id And.left
      rw [hskip (by rcases hk with h | h <;> rw [h] <;> rfl) (by rcases hk with h | h <;> rw [h] <;> rfl), ← ih (e := false)]
      cases e <;> simp [statementLexemes, statementPart, endingBehind, hbreak, hsemi]
    by_cases hblank : l.kind = .blank ∨ l.kind.isComment
    · have hk : l.kind = .blank ∨ l.kind = .lineComment ∨ l.kind = .blockComment := by
        rcases hblank with h | h
        · exact .inl h
        · revert h
          cases l.kind <;> simp [Kind.isComment]
      rw [hskip (by rcases hk with h | h | h <;> rw [h] <;> rfl) (by rcases hk with h | h | h <;> rw [h] <;> rfl),
        ← ih (e := e)]
      simp [statementLexemes, statementPart, endingBehind, hbreak, hblank]
    · have hcons : statementLexemes e (l :: ls) = l :: statementLexemes l.kind.endsStatement ls := by
        simp [statementLexemes, statementPart, endingBehind, hbreak, hblank]
      rw [hcons]
      simp only [isBalanced, ih]

lemma exists_isBalanced_right {stack : List Kind} {xs ys : List Lexeme} (h : isBalanced stack (xs ++ ys)) :
    ∃ stack', isBalanced stack' ys := by
  induction xs generalizing stack with
  | nil => exact ⟨stack, h⟩
  | cons l xs ih =>
    simp only [List.cons_append, isBalanced] at h
    split at h
    · exact ih h
    split at h
    · split at h
      · rw [Bool.and_eq_true] at h
        exact ih h.2
      · cases h
    · exact ih h

lemma mem_of_mem_endStatements {size : Nat} {ending : Bool} (h : t ∈ endStatements size ending ts) :
    t.kind = .semi ∨ t ∈ ts := by
  induction ts generalizing ending with
  | nil =>
    unfold endStatements at h
    split at h
    · rw [List.mem_singleton.1 h]
      exact .inl rfl
    · cases h
  | cons u ts ih =>
    have ih := fun ending h => (@ih ending h).imp_right (List.mem_cons_of_mem u)
    rw [endStatements] at h
    split at h
    · split at h
      · rcases List.mem_cons.1 h with rfl | h
        · exact .inl rfl
        · exact ih _ h
      · exact ih _ h
    split at h
    · exact ih _ h
    · rcases List.mem_cons.1 h with rfl | h
      · exact .inr List.mem_cons_self
      · exact ih _ h

lemma mem_tokens_of_mem_statementTokens (h : t ∈ statementTokens s) (hk : t.kind ≠ .semi) : t ∈ tokens s :=
  (List.mem_filter.1 ((mem_of_mem_endStatements h).resolve_left hk)).1

lemma keyword_of_declKind {f : Function} (h : c.declKind = .ok (.function f, c')) :
    c.kind? = some .funcWord ∧ c.advance.function = .ok (f, c') := by
  unfold Cursor.declKind at h
  split at h
  case h_2 hk =>
    obtain ⟨⟨g, d⟩, e, hp⟩ := exists_of_map_eq_ok h
    cases hp
    exact ⟨hk, e⟩
  case h_1 | h_3 | h_4 =>
    obtain ⟨⟨r, d⟩, -, hp⟩ := exists_of_map_eq_ok h
    cases hp
  case h_5 | h_6 => exact absurd h Cursor.unmet_ne_ok

lemma function_of_declKind {f : Function} (h : c.declKind = .ok (.function f, c')) : c.advance.function = .ok (f, c') :=
  (keyword_of_declKind h).2

/-- **The body of a function ends in a brace.** -/
theorem parse_body {tree : Tree} {f : Function} {b : Span} (h : parse s = .ok tree) (hf : f ∈ tree.functions)
    (hb : f.body = some b) : ∃ u v, s = u ++ '}' :: v ∧ u.width + 1 = b.stop := by
  have hbalanced := (parse_eq_ok h).2.1
  obtain ⟨x, hx, hkind⟩ : ∃ x ∈ tree.decls, x.kind = .function f := by
    simp only [Tree.functions, List.mem_filterMap] at hf
    obtain ⟨x, hx, hf⟩ := hf
    split at hf
    · next g hg =>
      cases hf
      exact ⟨x, hx, hg⟩
    · cases hf
  obtain ⟨y, e, e', hpass, hdecl, rfl⟩ := parse_decl h hx
  obtain ⟨a, hread, -, -⟩ := Cursor.decl_eq_ok hdecl
  rw [show y.kind = .function f from hkind] at hread
  obtain ⟨ts, g, hg, hbody⟩ := Cursor.function_eq_ok (function_of_declKind hread)
  rw [hb] at hbody
  obtain ⟨o, inner, close, hgroup, ho, hcut, rfl⟩ := functionBody_group hbody
  generalize a.ahead = rest at hgroup hcut
  have hall : (o :: (inner ++ close :: rest)) <:+ statementTokens s :=
    (hgroup.trans hg.suffix).trans (advance_suffix.trans hpass.suffix)
  have hclose : close.kind = .rbrace := by
    obtain ⟨pre, hpre⟩ := hall
    rw [← isBalanced_statementLexemes (e := false), ← map_lexeme_statementTokens, ← hpre, List.map_append] at hbalanced
    obtain ⟨stack, hstack⟩ := exists_isBalanced_right hbalanced
    have hopen : isBalanced (o.kind :: stack) ((inner ++ close :: rest).map Token.lexeme) := by
      have hkind : o.lexeme.kind.isOpen := by rw [Token.lexeme_kind, ho]; rfl
      simp only [List.map_cons, isBalanced, hkind, if_true] at hstack
      exact hstack
    have hinside : cutGroup? ([] : List Kind).length (inner ++ close :: rest) = some (inner, close, rest) := hcut
    have hcloser := (closer?_of_cutGroup? hinside hopen).1
    rw [ho] at hcloser
    exact (Option.some.inj hcloser).symm
  have hmem : close ∈ tokens s :=
    mem_tokens_of_mem_statementTokens (hall.mem (by simp)) (by rw [hclose]; decide)
  have htext : close.text = ['}'] :=
    text_of_bracket (l := close.lexeme) (lexeme_mem_lex hmem) (by rw [Token.lexeme_kind, hclose]; rfl)
  obtain ⟨u, v, rfl, hu⟩ := text_at_of_mem_tokens hmem
  refine ⟨u, v, by rw [htext]; rfl, ?_⟩
  rw [hu, Token.stop, htext]
  rfl

end Bodies

end RuleWeaver.Source
