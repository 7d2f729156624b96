import RuleWeaver.Proofs.Initializer.Statements

/-!
# Variables of registrations

An assignment `x := v.RegisterValidation(…)` is taken out with the check of `x` behind it.  Which statements go is decided
by looking at two neighbours (`registersAt`), so later uses of `x` are left.  `extraction_leaves_variables_iff` says when
there are none.
-/

namespace RuleWeaver

open Source

/-! ### Names in statements -/

namespace Statement

/-- Whether a name stands in a statement. -/
def mentions (x : Text) (s : Statement) : Bool := s.any (isName · x)

/-- Whether a token is `:=`. -/
def isDefine (t : Token) : Bool := t.kind = .operator && t.text = ":=".toList

/-- Whether a statement begins with `x :=`. -/
def defines (x : Text) : Statement → Bool
  | name :: op :: _ => isName name x && isDefine op
  | _ => false

/-- The names that tokens begin with, which have commas between them, and the tokens behind. -/
def nameList : List Token → List Text × List Token
  | name :: comma :: ts =>
    if name.kind ≠ .ident then ([], name :: comma :: ts)
    else if comma.kind = .comma then (name.text :: (nameList ts).1, (nameList ts).2)
    else ([name.text], comma :: ts)
  | ts => ((ts.filter (·.kind = .ident)).map (·.text), [])

/-- Whether tokens begin with a declaration of a variable: names with `:=` behind them, or `var` with names or a group. -/
def declaresAhead (x : Text) : List Token → Bool
  | t :: ts =>
    if t.kind = .varWord then
      match ts with
      | p :: group =>
        if p.kind = .lparen then (group.take ((closingIndex? 1 group).getD group.length)).any (isName · x)
        else (nameList ts).1.contains x
      | [] => false
    else (nameList (t :: ts)).1.contains x && (nameList (t :: ts)).2.head?.any isDefine
  | [] => false

/-- Whether a variable is declared in a statement, by `:=` or by `var`. -/
def declares (x : Text) (s : Statement) : Bool := s.tails.any (declaresAhead x)

end Statement

/-! ### Which statements go -/

section Places

variable {source x y : Text} {s a check : Statement} {ss all front left : List Statement} {ms : List Removed}
  {r : InitRegistration} {call : List Token} {p : Text × InitRegistration} {i j : Nat}

/-- Whether the statements at a place and behind it are an assignment and its check. -/
def pairsAt (source : Text) (ss : List Statement) (i : Nat) : Bool :=
  ss[i]?.any fun a => ss[i + 1]?.any fun check => (a.assigned? source).any fun p => check.isErrorCheck p.1

/-- Whether the statement at a place registers something, by itself or with a neighbour. -/
def registersAt (source : Text) (ss : List Statement) (i : Nat) : Bool :=
  ss[i]?.any (fun s => (s.single? source).isSome) || pairsAt source ss i || (i ≠ 0 && pairsAt source ss (i - 1))

/-! The second token of a statement tells its form. -/

lemma second_of_registration (h : Statement.registration? source s = some r) : ∃ t u us, s = t :: u :: us ∧ u.kind = .dot := by
  simp only [Statement.registration?] at h
  split at h
  · next hcallee =>
    obtain ⟨hlength, -, hchain, -⟩ := hcallee
    have hprefix : s.takeWhile (·.kind ≠ .lparen) <+: s := List.takeWhile_prefix _
    revert hlength hchain hprefix
    generalize s.takeWhile (·.kind ≠ .lparen) = callee
    intro hlength hchain hprefix
    match callee, hlength, hchain with
    | t :: u :: us, _, hchain =>
      obtain ⟨rest, rfl⟩ := hprefix
      rw [Statement.isChain, Bool.and_eq_true, Bool.and_eq_true] at hchain
      exact ⟨t, u, us ++ rest, rfl, of_decide_eq_true hchain.1.2⟩
  · cases h

lemma second_of_assigned (h : s.assigned? source = some p) :
    ∃ t u us, s = t :: u :: us ∧ t.kind = .ident ∧ t.text ≠ "_".toList ∧ (u.kind = .assign ∨ u.kind = .operator) := by
  match s, h with
  | t :: u :: us, h =>
    simp only [Statement.assigned?] at h
    split at h
    · next hassigns =>
      obtain ⟨hname, hassign, hblank⟩ := hassigns
      exact ⟨t, u, us, rfl, hname, hblank, hassign.imp_right And.left⟩
    · cases h

lemma second_of_check (h : s.isErrorCheck x) : ∃ t u us, s = t :: u :: us ∧ u.kind = .ident := by
  match s, h with
  | t :: u :: op :: nil :: us, h =>
    simp only [Statement.isErrorCheck, Statement.isCheck, Statement.isName, Bool.and_eq_true, decide_eq_true_eq] at h
    exact ⟨t, u, _, rfl, h.2.1.1.1.1.1.1⟩
  | [t, u, op], h => simp [Statement.isErrorCheck, Statement.isCheck] at h
  | [t, u], h => simp [Statement.isErrorCheck, Statement.isCheck] at h
  | [t], h => simp [Statement.isErrorCheck, Statement.isCheck] at h

lemma splitHeader?_cons {depth : Nat} {t : Token} {ts : List Token} : Statement.splitHeader? depth (t :: ts) =
    if t.kind.depthBehind depth = 0 ∧ t.kind = .semi then some ([], ts)
    else (Statement.splitHeader? (t.kind.depthBehind depth) ts).map fun (a, b) => (t :: a, b) := rfl

lemma append_of_splitHeader? {depth : Nat} {ts us vs : List Token} (h : Statement.splitHeader? depth ts = some (us, vs)) :
    ∃ semi, ts = us ++ semi :: vs := by
  induction ts generalizing depth us with
  | nil => cases h
  | cons t ts ih =>
    rw [splitHeader?_cons] at h
    split at h
    · cases h
      exact ⟨t, rfl⟩
    · obtain ⟨⟨a, b⟩, hsplit, hpair⟩ := Option.map_eq_some_iff.1 h
      cases hpair
      obtain ⟨semi, rfl⟩ := ih hsplit
      exact ⟨semi, rfl⟩

lemma second_of_guarded (h : s.guarded? source = some r) : ∃ t u us, s = t :: u :: us ∧ u.kind = .ident := by
  match s, h with
  | t :: ts, h =>
    simp only [Statement.guarded?] at h
    split at h
    · split at h
      · next call check hheader =>
        obtain ⟨semi, rfl⟩ := append_of_splitHeader? hheader
        split at h
        · next _ hcall =>
          obtain ⟨u, v, us, rfl, hu, -⟩ := second_of_assigned hcall
          exact ⟨t, u, _, rfl, hu⟩
        · cases h
      · cases h
    · cases h

lemma second_of_plain (h : s.plain? source = some r) :
    ∃ t u us, s = t :: u :: us ∧ (u.kind = .dot ∨ t.text = "_".toList ∧ u.kind = .assign) := by
  simp only [Statement.plain?] at h
  split at h
  · next t u us =>
    split at h
    · next hassign => exact ⟨t, u, us, rfl, .inr hassign.symm⟩
    · obtain ⟨t, u, us, hs, hu⟩ := second_of_registration h
      exact ⟨t, u, us, hs, .inl hu⟩
  · obtain ⟨t, u, us, hs, hu⟩ := second_of_registration h
    exact ⟨t, u, us, hs, .inl hu⟩

lemma second_of_single (h : s.single? source = some r) :
    ∃ t u us, s = t :: u :: us ∧ (u.kind = .dot ∨ u.kind = .ident ∨ t.text = "_".toList ∧ u.kind = .assign) := by
  cases hplain : s.plain? source with
  | some r' =>
    obtain ⟨t, u, us, hs, hu⟩ := second_of_plain hplain
    exact ⟨t, u, us, hs, hu.imp_right .inr⟩
  | none =>
    rw [Statement.single?, hplain] at h
    obtain ⟨t, u, us, hs, hu⟩ := second_of_guarded h
    exact ⟨t, u, us, hs, .inr (.inl hu)⟩

lemma assigned_of_single (h : s.single? source = some r) : s.assigned? source = none := by
  rw [Option.eq_none_iff_forall_ne_some]
  intro p hp
  obtain ⟨t, u, us, rfl, hu⟩ := second_of_single h
  obtain ⟨t', u', us', hs, -, hblank, hassign⟩ := second_of_assigned hp
  cases hs
  rcases hu with hu | hu | ⟨ht, -⟩
  · simp [hu] at hassign
  · simp [hu] at hassign
  · exact hblank ht

lemma assigned_of_check (h : s.isErrorCheck x) : s.assigned? source = none := by
  rw [Option.eq_none_iff_forall_ne_some]
  intro p hp
  obtain ⟨t, u, us, rfl, hu⟩ := second_of_check h
  obtain ⟨t', u', us', hs, -, -, hassign⟩ := second_of_assigned hp
  cases hs
  simp [hu] at hassign

lemma not_defines_of_single (h : s.single? source = some r) : s.defines y = false := by
  obtain ⟨t, u, us, rfl, hu⟩ := second_of_single h
  rcases hu with hu | hu | ⟨-, hu⟩ <;> simp [Statement.defines, Statement.isDefine, hu]

lemma not_defines_of_check (h : s.isErrorCheck x) : s.defines y = false := by
  obtain ⟨t, u, us, rfl, hu⟩ := second_of_check h
  simp [Statement.defines, Statement.isDefine, hu]

lemma pairsAt_iff : pairsAt source ss i ↔ ∃ a check x r, ss[i]? = some a ∧ ss[i + 1]? = some check ∧ a.IsPair source check x r := by
  simp only [pairsAt, Option.any_eq_true, Statement.IsPair, Prod.exists]
  grind

lemma pairsAt_of_assigned (hs : ss[i]? = some s) (h : s.assigned? source = none) : pairsAt source ss i = false := by
  simp [pairsAt, hs, h]

lemma pairsAt_of_left (hall : all = front ++ s :: ss) (h : ∀ check ∈ ss.head?, ∀ x r, ¬ s.IsPair source check x r) :
    pairsAt source all front.length = false := by
  have hat : all[front.length]? = some s := by simp [hall]
  have hbehind : all[front.length + 1]? = ss.head? := by
    rw [hall, List.getElem?_append_right (Nat.le_succ _), List.head?_eq_getElem?]
    simp
  rw [Bool.eq_false_iff]
  intro hpair
  obtain ⟨a, check, x, r, ha, hcheck, hpair⟩ := pairsAt_iff.1 hpair
  obtain rfl : s = a := Option.some.inj (hat.symm.trans ha)
  exact h check (hbehind ▸ hcheck) x r hpair

/-- **Two neighbours tell whether a statement is left.** -/
theorem Sorts.left_eq (h : Sorts source ss ms left) (front : List Statement) (hall : all = front ++ ss)
    (hfront : front.length ≠ 0 → pairsAt source all (front.length - 1) = false) :
    left = ((ss.zipIdx front.length).filter fun q => !registersAt source all q.2).map (·.1) := by
  induction h generalizing front with
  | nil => rfl
  | @single s r ss left ms hs h ih =>
    have hat : all[front.length]? = some s := by simp [hall]
    have hgone : registersAt source all front.length = true := by simp [registersAt, hat, hs]
    have hnext := ih (front ++ [s]) (by simp [hall]) fun _ => by
      simpa using pairsAt_of_assigned hat (assigned_of_single hs)
    rw [List.zipIdx_cons, List.filter_cons_of_neg (by simp [hgone]), hnext, List.length_append, List.length_singleton]
  | @pair a check x r ss left ms ha hpair h ih =>
    have hat : all[front.length]? = some a := by simp [hall]
    have hbehind : all[front.length + 1]? = some check := by simp [hall]
    have hpairs : pairsAt source all front.length = true := pairsAt_iff.2 ⟨a, check, x, r, hat, hbehind, hpair⟩
    have hgone : registersAt source all front.length = true := by simp [registersAt, hpairs]
    have hgone' : registersAt source all (front.length + 1) = true := by simp [registersAt, hpairs]
    have hnext := ih (front ++ [a, check]) (by simp [hall]) fun _ => by
      simpa using pairsAt_of_assigned hbehind (assigned_of_check hpair.2)
    rw [List.zipIdx_cons, List.filter_cons_of_neg (by simp [hgone]), List.zipIdx_cons, List.filter_cons_of_neg (by simp [hgone']),
      hnext, List.length_append, List.length_cons, List.length_singleton]
  | @left s ss left ms hs hpair h ih =>
    have hat : all[front.length]? = some s := by simp [hall]
    have hnot : pairsAt source all front.length = false := pairsAt_of_left hall hpair
    have hkept : registersAt source all front.length = false := by
      simp only [registersAt, hat, Option.any_some, hs, Option.isSome_none, hnot, Bool.or_false, Bool.false_or, Bool.and_eq_false_iff]
      by_cases hzero : front.length = 0
      · exact .inl (by simpa using hzero)
      · exact .inr (hfront hzero)
    have hnext := ih (front ++ [s]) (by simp [hall]) fun _ => by simpa using hnot
    rw [List.zipIdx_cons, List.filter_cons_of_pos (by simp [hkept]), List.map_cons, hnext, List.length_append, List.length_singleton]

lemma exists_le_iff {P : Nat → Prop} {n : Nat} : (∃ i, n ≤ i ∧ P i) ↔ P n ∨ ∃ i, n + 1 ≤ i ∧ P i := by
  constructor
  · rintro ⟨i, hi, h⟩
    rcases Nat.eq_or_lt_of_le hi with rfl | hlt
    · exact .inl h
    · exact .inr ⟨i, hlt, h⟩
  · rintro (h | ⟨i, hi, h⟩)
    · exact ⟨n, Nat.le_refl n, h⟩
    · exact ⟨i, Nat.le_of_succ_le hi, h⟩

/-- A definition that is taken out is that of an assignment in front of its check. -/
lemma Sorts.defines_iff (h : Sorts source ss ms left) (front : List Statement) (hall : all = front ++ ss) :
    (∃ m ∈ ms, ∃ u ∈ m.statements, u.defines y) ↔
      ∃ i, front.length ≤ i ∧ pairsAt source all i ∧ all[i]?.any (·.defines y) := by
  induction h generalizing front with
  | nil =>
    refine iff_of_false (by simp) ?_
    rintro ⟨i, hi, -, hany⟩
    rw [List.getElem?_eq_none (by simpa [hall] using hi)] at hany
    cases hany
  | @single s r ss left ms hs h ih =>
    have hat : all[front.length]? = some s := by simp [hall]
    have hnext := ih (front ++ [s]) (by simp [hall])
    rw [List.length_append, List.length_singleton] at hnext
    rw [exists_le_iff, ← hnext, pairsAt_of_assigned hat (assigned_of_single hs)]
    simp [not_defines_of_single hs]
  | @pair a check x r ss left ms ha hpair h ih =>
    have hat : all[front.length]? = some a := by simp [hall]
    have hbehind : all[front.length + 1]? = some check := by simp [hall]
    have hpairs : pairsAt source all front.length = true := pairsAt_iff.2 ⟨a, check, x, r, hat, hbehind, hpair⟩
    have hnext := ih (front ++ [a, check]) (by simp [hall])
    rw [List.length_append, List.length_cons, List.length_singleton] at hnext
    rw [exists_le_iff, exists_le_iff, ← hnext, hpairs, hat, pairsAt_of_assigned hbehind (assigned_of_check hpair.2)]
    simp [not_defines_of_check hpair.2]
  | @left s ss left ms hs hpair h ih =>
    have hnext := ih (front ++ [s]) (by simp [hall])
    rw [List.length_append, List.length_singleton] at hnext
    rw [exists_le_iff, ← hnext, pairsAt_of_left hall hpair]
    simp

/-! ### Uses that are left -/

/-- No statement that is left mentions a variable whose definition is taken out, unless it declares the variable, or one
left in front of it does. -/
def LeavesNoUses (ms : List Removed) (left : List Statement) : Prop :=
  ∀ x, (∃ m ∈ ms, ∃ u ∈ m.statements, u.defines x) → ∀ front s behind, left = front ++ s :: behind → s.mentions x →
    ∃ u ∈ front ++ [s], u.declares x

/-- The same of the statements of a body. -/
def HasNoUses (source : Text) (ss : List Statement) : Prop :=
  ∀ x i, pairsAt source ss i → ss[i]?.any (·.defines x) →
    ∀ j s, ss[j]? = some s → registersAt source ss j = false → s.mentions x →
      ∃ k u, k ≤ j ∧ ss[k]? = some u ∧ registersAt source ss k = false ∧ u.declares x

lemma mem_kept {q : Statement × Nat} : q ∈ ss.zipIdx.filter (fun q => !registersAt source ss q.2) ↔
    ss[q.2]? = some q.1 ∧ registersAt source ss q.2 = false := by
  rw [List.mem_filter, List.mem_zipIdx_iff_getElem?, Bool.not_eq_true']

lemma pairwise_zipIdx (ss : List Statement) : ss.zipIdx.Pairwise (·.2 < ·.2) := by
  have h : (ss.zipIdx.map (·.2)).Pairwise (· < ·) := by
    rw [List.zipIdx_map_snd]
    exact List.pairwise_lt_range'
  exact List.pairwise_map.1 h

lemma leavesNoUses_iff (h : Sorts source ss ms left) : LeavesNoUses ms left ↔ HasNoUses source ss := by
  have hleft := h.left_eq [] (List.nil_append ss).symm (by simp)
  have hordered : (ss.zipIdx.filter fun q => !registersAt source ss q.2).Pairwise (·.2 < ·.2) :=
    (pairwise_zipIdx ss).sublist List.filter_sublist
  refine forall_congr' fun x => ?_
  rw [h.defines_iff [] (List.nil_append ss).symm]
  simp only [List.length_nil, Nat.zero_le, true_and] at hleft ⊢
  constructor
  · intro h i hpairs hdefines j s hs hkept hmentions
    -- the statements that are left, up to this one
    obtain ⟨A, B, hsplit⟩ := List.append_of_mem (mem_kept (q := (s, j)).2 ⟨hs, hkept⟩)
    rw [hsplit] at hleft hordered
    obtain ⟨u, hu, hdeclares⟩ := h ⟨i, hpairs, hdefines⟩ (A.map (·.1)) s (B.map (·.1)) (by simpa using hleft) hmentions
    obtain ⟨q, hq, rfl⟩ : ∃ q ∈ A ++ [(s, j)], q.1 = u := by simpa [eq_comm (a := u)] using hu
    have hmem : q ∈ A ++ (s, j) :: B := by
      rw [List.append_cons]
      exact List.mem_append_left _ hq
    rw [← hsplit, mem_kept] at hmem
    refine ⟨q.2, q.1, ?_, hmem.1, hmem.2, hdeclares⟩
    rcases List.mem_append.1 hq with hq | hq
    · exact ((List.pairwise_append.1 hordered).2.2 q hq (s, j) List.mem_cons_self).le
    · rw [List.mem_singleton.1 hq]
  · rintro h ⟨i, hpairs, hdefines⟩ front s behind hsplit hmentions
    obtain ⟨A, qs, hqs, rfl, hrest⟩ := List.map_eq_append_iff.1 (hleft.symm.trans hsplit)
    obtain ⟨q, B, rfl, rfl, -⟩ := List.map_eq_cons_iff.1 hrest
    have hq := mem_kept.1 (hqs ▸ List.mem_append_right A List.mem_cons_self)
    obtain ⟨k, u, hk, hu, hkept, hdeclares⟩ := h i hpairs hdefines q.2 q.1 hq.1 hq.2 hmentions
    have hmem := mem_kept (q := (u, k)).2 ⟨hu, hkept⟩
    rw [hqs] at hmem hordered
    refine ⟨u, ?_, hdeclares⟩
    rcases List.mem_append.1 hmem with hmem | hmem
    · exact List.mem_append_left _ (List.mem_map_of_mem hmem)
    rcases List.mem_cons.1 hmem with rfl | hmem
    · simp
    · have := (List.pairwise_cons.1 (List.pairwise_append.1 hordered).2.1).1 (u, k) hmem
      exact absurd hk (Nat.not_le.2 this)

end Places

section Extraction

variable {s : Text} {tree : Tree} {d : Decl} {f : Function} {b : Span}

/-- **An extraction leaves no variable without its definition exactly when** a variable that a registration defines, with
its check behind, is used by no other statement that stays, unless it is declared again up to there. -/
theorem extraction_leaves_no_uses_iff (h : parse s = .ok tree) (hd : d ∈ tree.decls) (hf : d.kind = .function f)
    (hb : f.body = some b) : ∃ ms left, Sorts s (bodyStatements s b) ms left ∧
      extractRegistrations? s d f = some (remainder s d ms left) ∧
      (LeavesNoUses ms left ↔ HasNoUses s (bodyStatements s b)) := by
  obtain ⟨ms, left, hsorts, hextract⟩ := extractRegistrations?_eq h hd hf hb
  exact ⟨ms, left, hsorts, hextract, leavesNoUses_iff hsorts⟩

/-- A function that uses the variable of a registration once more. -/
def reusedVariableFile : Text :=
  ("package a\n\nfunc init() \x7b\n\terr := v.RegisterValidation(\"zip\", validateZip)\n" : Text) ++
    "\tif err != nil \x7b\n\t\tpanic(err)\n\t\x7d\n\terr = setup()\n\tif err != nil \x7b\n\t\tpanic(err)\n\t\x7d\n\x7d\n"

def reusedVariableFunction : Function := ⟨"init", none, some ⟨23, 156⟩⟩

def reusedVariableDecl : Decl := ⟨.function reusedVariableFunction, ⟨11, 156⟩, 11⟩

def reusedVariableStatements : List Statement := bodyStatements reusedVariableFile ⟨23, 156⟩

/-- The variable is left there without its definition. -/
theorem reused_variable_is_left : ∃ ms left, extractRegistrations? reusedVariableFile reusedVariableDecl reusedVariableFunction =
    some (remainder reusedVariableFile reusedVariableDecl ms left) ∧ ¬ LeavesNoUses ms left := by
  have hparse : parse reusedVariableFile = .ok ⟨⟨"a", ⟨0, 9⟩⟩, [], [reusedVariableDecl]⟩ := by
    apply ok_of_toOption
    unfold reusedVariableFile
    repeat rw [String.toList_ofList]
    decide +kernel
  obtain ⟨ms, left, -, hextract, huses⟩ := extraction_leaves_no_uses_iff (d := reusedVariableDecl) hparse (by decide) rfl rfl
  refine ⟨ms, left, hextract, fun h => ?_⟩
  have hplaces : pairsAt reusedVariableFile reusedVariableStatements 0 = true ∧
      reusedVariableStatements[0]?.any (·.defines "err") = true ∧
      registersAt reusedVariableFile reusedVariableStatements 0 = true ∧
      registersAt reusedVariableFile reusedVariableStatements 1 = true ∧
      registersAt reusedVariableFile reusedVariableStatements 2 = false ∧
      reusedVariableStatements[2]?.any (fun s => s.mentions "err" && !s.declares "err") = true := by
    unfold reusedVariableStatements reusedVariableFile
    repeat rw [String.toList_ofList]
    decide +kernel
  obtain ⟨hpairs, hdefines, hgone, hgone', hkept, hany⟩ := hplaces
  obtain ⟨s, hs, huse⟩ := (Option.any_eq_true _ _).1 hany
  rw [Bool.and_eq_true, Bool.not_eq_true'] at huse
  obtain ⟨k, u, hk, hu, hleft, hdeclares⟩ := huses.1 h "err" 0 hpairs hdefines 2 s hs hkept huse.1
  obtain rfl | rfl | rfl : k = 0 ∨ k = 1 ∨ k = 2 := by omega
  · exact Bool.false_ne_true (hleft.symm.trans hgone)
  · exact Bool.false_ne_true (hleft.symm.trans hgone')
  · cases hs.symm.trans hu
    exact Bool.false_ne_true (huse.2.symm.trans hdeclares)

end Extraction

end RuleWeaver
