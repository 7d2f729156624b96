import RuleWeaver.Proofs.Source.Bodies

/-!
# Statements of a body

`Statement.splitBody` cuts a body into runs of tokens with line breaks and semicolons between them (`laid_splitBody`), and
`takeOut` sorts the statements into those that register something and those that are left (`takeOut_sorts`).  Together
they say what an extraction does with a body (`extractRegistrations?_eq`).
-/

namespace RuleWeaver

open Source

/-! ### Where statements stand -/

section Layout

variable {n depth : Nat} {t : Token} {ts gap pre run rest trail : List Token} {s s' y current : Statement}
  {ss xs zs : List Statement}

/-- Whether tokens of the class count for where statements end: all but blanks and comments. -/
def Source.Kind.isCounted (k : Kind) : Bool := k.isSignificant || k = .newline

/-- Whether a statement can end at a token.  In a header semicolons do not end it. -/
def Statement.endsAt (s : Statement) (t : Token) : Bool := t.kind = .newline ∨ (t.kind = .semi ∧ ¬ s.opensHeader)

/-- A run of tokens is a statement with its comments, blanks and line breaks; none of these stands at an end of it. -/
structure Statement.IsRun (run : List Token) (s : Statement) : Prop where
  code : run.filter (·.kind.isSignificant) = s
  head : ∃ t ∈ run.head?, t.kind.isSignificant ∧ t.kind ≠ .semi
  last : ∃ t ∈ run.getLast?, t.kind.isSignificant

/-- How statements stand among tokens.  Between them there are semicolons, line breaks, blanks and comments, and the first
that counts behind each ends it. -/
inductive Laid : List Token → List Statement → Prop
  | nil {gap : List Token} (hgap : ∀ t ∈ gap, t.kind.isSignificant → t.kind = .semi) : Laid gap []
  | cons {gap run rest : List Token} {s : Statement} {ss : List Statement}
    (hgap : ∀ t ∈ gap, t.kind.isSignificant → t.kind = .semi) (hrun : s.IsRun run)
    (hrest : (rest.filter (·.kind.isCounted)).head?.all s.endsAt) (h : Laid rest ss) :
    Laid (gap ++ (run ++ rest)) (s :: ss)

namespace Laid

lemma append (hgap : ∀ t ∈ gap, t.kind.isSignificant → t.kind = .semi) (h : Laid ts ss) : Laid (gap ++ ts) ss := by
  cases h with
  | nil hgap' => exact .nil (List.forall_mem_append.2 ⟨hgap, hgap'⟩)
  | cons hgap' hrun hrest h =>
    rw [← List.append_assoc]
    exact .cons (List.forall_mem_append.2 ⟨hgap, hgap'⟩) hrun hrest h

lemma skip (ht : t.kind.isSignificant → t.kind = .semi) (h : Laid ts ss) : Laid (t :: ts) ss :=
  append (List.forall_mem_singleton.2 ht) h

lemma sublist (h : Laid ts ss) : ss.flatten.Sublist ts := by
  induction h with
  | nil => exact List.nil_sublist _
  | cons hgap hrun hrest h ih =>
    rw [List.flatten_cons, ← hrun.code]
    exact (List.filter_sublist.append ih).trans (List.sublist_append_right _ _)

lemma isSignificant (h : Laid ts ss) (hs : s ∈ ss) (ht : t ∈ s) : t.kind.isSignificant := by
  induction h with
  | nil => cases hs
  | cons hgap hrun hrest h ih =>
    rcases List.mem_cons.1 hs with rfl | hs
    · rw [← hrun.code] at ht
      exact (List.mem_filter.1 ht).2
    · exact ih hs

end Laid

lemma Statement.IsRun.head_counted (h : s.IsRun run) :
    ∃ t us, run.filter (·.kind.isCounted) = t :: us ∧ t.kind ≠ .newline ∧ t.kind ≠ .semi := by
  obtain ⟨t, ht, hsig, hsemi⟩ := h.head
  obtain ⟨us, rfl⟩ : ∃ us, run = t :: us := ⟨run.tail, List.eq_cons_of_mem_head? ht⟩
  refine ⟨t, us.filter (·.kind.isCounted), List.filter_cons_of_pos (by simp [Kind.isCounted, hsig]), ?_, hsemi⟩
  rintro hk
  rw [hk] at hsig
  cases hsig

/-- A token that ends no statement and is left out. -/
lemma Statement.splitBody_skip (ht : t.kind.isComment ∨ t.kind = .newline ∧ ¬ (depth = 0 ∧ current.getLast?.any (·.kind.endsStatement))) :
    splitBody depth current (t :: ts) = splitBody depth current ts := by
  rw [splitBody]
  by_cases hc : t.kind.isComment
  · rw [if_pos hc]
  · obtain ⟨hk, hends⟩ := ht.resolve_left hc
    rw [if_neg hc, if_pos hk, if_neg hends]

lemma Source.Kind.cases_of_not_isSignificant {k : Kind} (h : k.isSignificant = false) :
    k = .blank ∨ k.isComment ∨ k = .newline := by
  revert h
  cases k <;> simp [Kind.isSignificant, Kind.isComment]

/-- What ends no statement and is no code is left out. -/
lemma Statement.splitBody_pass (ht : t.kind.isSignificant = false)
    (h : ¬ (t.kind = .newline ∧ depth = 0 ∧ current.getLast?.any (·.kind.endsStatement))) :
    splitBody depth current ((t :: ts).filter (·.kind ≠ .blank)) = splitBody depth current (ts.filter (·.kind ≠ .blank)) := by
  rcases Kind.cases_of_not_isSignificant ht with hk | hk | hk
  · rw [List.filter_cons_of_neg (by simp [hk])]
  · have hblank : t.kind ≠ .blank := by
      rintro e
      rw [e] at hk
      cases hk
    rw [List.filter_cons_of_pos (by simpa using hblank), splitBody_skip (.inl hk)]
  · rw [List.filter_cons_of_pos (by simp [hk]), splitBody_skip (.inr ⟨hk, fun hends => h ⟨hk, hends⟩⟩)]

lemma Statement.splitBody_token (hsig : t.kind.isSignificant) (h : ¬ (t.kind = .semi ∧ depth = 0 ∧ ¬ current.opensHeader)) :
    splitBody depth current (t :: ts) = splitBody (t.kind.depthBehind depth) (current ++ [t]) ts := by
  have hc : ¬ t.kind.isComment := fun hc => by
    revert hc hsig
    cases t.kind <;> simp [Kind.isComment, Kind.isSignificant]
  have hn : t.kind ≠ .newline := fun hn => by
    rw [hn] at hsig
    cases hsig
  rw [splitBody, if_neg hc, if_neg hn, if_neg h]
  rfl

lemma endsAt_behind (htrail : ∀ t ∈ trail, t.kind.isSignificant = false) (ht : s.endsAt t) :
    ((trail ++ t :: rest).filter (·.kind.isCounted)).head?.all s.endsAt := by
  induction trail with
  | nil =>
    have hcounted : t.kind.isCounted := by
      rcases of_decide_eq_true ht with hk | ⟨hk, -⟩ <;> rw [hk] <;> rfl
    simpa [hcounted] using ht
  | cons u trail ih =>
    obtain ⟨hu, htrail⟩ := List.forall_mem_cons.1 htrail
    rw [List.cons_append]
    by_cases hn : u.kind = .newline
    · rw [List.filter_cons_of_pos (by rw [hn]; rfl)]
      simp [Statement.endsAt, hn]
    · rw [List.filter_cons_of_neg (by simp [Kind.isCounted, hu, hn])]
      exact ih htrail

lemma endsAt_of_gap (htrail : ∀ t ∈ trail, t.kind.isSignificant = false) :
    (trail.filter (·.kind.isCounted)).head?.all s.endsAt := by
  rw [Option.all_eq_true]
  intro t ht
  obtain ⟨hmem, hcounted⟩ := List.mem_filter.1 (List.mem_of_mem_head? ht)
  simp only [Kind.isCounted, htrail t hmem, Bool.false_or, decide_eq_true_eq] at hcounted
  simp [Statement.endsAt, hcounted]

/-- A run goes on behind what stands between its tokens. -/
lemma Statement.IsRun.concat (h : current.IsRun run) (htrail : ∀ t ∈ trail, t.kind.isSignificant = false)
    (ht : t.kind.isSignificant) : Statement.IsRun (run ++ (trail ++ [t])) (current ++ [t]) where
  code := by
    rw [List.filter_append, List.filter_append, h.code, List.filter_eq_nil_iff.2 (by simpa using htrail)]
    simp [ht]
  head := by
    obtain ⟨u, hu, hsig⟩ := h.head
    exact ⟨u, by rw [List.head?_append, hu]; rfl, hsig⟩
  last := ⟨t, by rw [← List.append_assoc, List.getLast?_concat]; rfl, ht⟩

lemma Statement.IsRun.ne_nil (h : s.IsRun run) : s ≠ [] := by
  obtain ⟨t, ht, hsig, -⟩ := h.head
  rw [← h.code]
  exact List.ne_nil_of_mem (List.mem_filter.2 ⟨List.mem_of_mem_head? ht, hsig⟩)

lemma isRun_singleton (ht : t.kind.isSignificant) (hsemi : t.kind ≠ .semi) : Statement.IsRun [t] [t] where
  code := List.filter_cons_of_pos ht
  head := ⟨t, rfl, ht, hsemi⟩
  last := ⟨t, rfl, ht⟩

/-- The statements stand among the tokens.  Where a statement has begun, its rest and those behind it do. -/
lemma laid_splitBody_and (ts : List Token) :
    Laid ts (Statement.splitBody 0 [] (ts.filter (·.kind ≠ .blank))) ∧
    ∀ depth run trail current, Statement.IsRun run current → (∀ t ∈ trail, t.kind.isSignificant = false) →
      ∃ run' rest s ss, Statement.splitBody depth current (ts.filter (·.kind ≠ .blank)) = s :: ss ∧
        run ++ (trail ++ ts) = run' ++ rest ∧ s.IsRun run' ∧ (rest.filter (·.kind.isCounted)).head?.all s.endsAt ∧
        Laid rest ss := by
  induction ts with
  | nil =>
    refine ⟨.nil (by simp), fun depth run trail current hrun htrail => ⟨run, trail, current, [], ?_, by simp, hrun,
      endsAt_of_gap htrail, .nil fun t ht hsig => ?_⟩⟩
    · simp [Statement.splitBody, hrun.ne_nil]
    · rw [htrail t ht] at hsig
      cases hsig
  | cons t ts ih =>
    obtain ⟨ih, ihopen⟩ := ih
    have hgap : ∀ {trail : List Token}, (∀ t ∈ trail, t.kind.isSignificant = false) →
        ∀ t ∈ trail, t.kind.isSignificant → t.kind = .semi := by
      intro trail htrail t ht hsig
      rw [htrail t ht] at hsig
      cases hsig
    by_cases hsig : t.kind.isSignificant
    · have hblank : t.kind ≠ .blank := by
        rintro hk
        rw [hk] at hsig
        cases hsig
      rw [List.filter_cons_of_pos (by simpa using hblank)]
      refine ⟨?_, fun depth run trail current hrun htrail => ?_⟩
      · by_cases hsemi : t.kind = .semi
        · have hskip : ∀ us, Statement.splitBody 0 [] (t :: us) = Statement.splitBody 0 [] us := by
            intro us
            simp [Statement.splitBody, hsemi, Kind.isComment, Statement.opensHeader]
          rw [hskip]
          exact ih.skip fun _ => hsemi
        · obtain ⟨run', rest, s, ss, hsplit, hts, hrun', hbreak, hrest⟩ :=
            ihopen (t.kind.depthBehind 0) [t] [] [t] (isRun_singleton hsig hsemi) (by simp)
          rw [Statement.splitBody_token hsig (by simp [hsemi]), List.nil_append, hsplit,
            show t :: ts = [] ++ (run' ++ rest) from hts]
          exact .cons (by simp) hrun' hbreak hrest
      · by_cases hend : t.kind = .semi ∧ depth = 0 ∧ ¬ current.opensHeader
        · have hsplit : ∀ us, Statement.splitBody depth current (t :: us) = current :: Statement.splitBody 0 [] us := by
            intro us
            obtain ⟨hk, rfl, hheader⟩ := hend
            simp [Statement.splitBody, hk, Kind.isComment, hheader, hrun.ne_nil]
          refine ⟨run, trail ++ t :: ts, current, _, hsplit _, rfl, hrun,
            endsAt_behind htrail (by simp [Statement.endsAt, hend.1, hend.2.2]), ?_⟩
          exact Laid.append (hgap htrail) (ih.skip fun _ => hend.1)
        · rw [Statement.splitBody_token hsig hend]
          obtain ⟨run', rest, s, ss, hsplit, hts, h⟩ := ihopen (t.kind.depthBehind depth) (run ++ (trail ++ [t])) [] (current ++ [t])
            (hrun.concat htrail hsig) (by simp)
          exact ⟨run', rest, s, ss, hsplit, by rw [← hts]; simp, h⟩
    · have hsig := Bool.eq_false_iff.2 hsig
      refine ⟨?_, fun depth run trail current hrun htrail => ?_⟩
      · rw [Statement.splitBody_pass hsig (by simp)]
        exact ih.skip (by simp [hsig])
      · by_cases hend : t.kind = .newline ∧ depth = 0 ∧ current.getLast?.any (·.kind.endsStatement)
        · have hsplit : Statement.splitBody depth current ((t :: ts).filter (·.kind ≠ .blank)) =
              current :: Statement.splitBody 0 [] (ts.filter (·.kind ≠ .blank)) := by
            obtain ⟨hk, rfl, hends⟩ := hend
            simp [Statement.splitBody, hk, Kind.isComment, hends]
          refine ⟨run, trail ++ t :: ts, current, _, hsplit, rfl, hrun,
            endsAt_behind htrail (by simp [Statement.endsAt, hend.1]), ?_⟩
          exact Laid.append (hgap htrail) (ih.skip (by simp [hsig]))
        · obtain ⟨run', rest, s, ss, hsplit, hts, h⟩ := ihopen depth run (trail ++ [t]) current hrun (List.forall_mem_append.2 ⟨htrail, by simpa using hsig⟩)
          exact ⟨run', rest, s, ss, (Statement.splitBody_pass hsig hend).trans hsplit, by rw [← hts]; simp, h⟩

/-- **A body is cut into statements that stand one behind the other.** -/
theorem laid_splitBody : Laid ts (Statement.splitBody 0 [] (ts.filter (·.kind ≠ .blank))) := (laid_splitBody_and ts).1

end Layout

/-! ### What is taken out -/

section Sorting

variable {source : Text} {s a check : Statement} {ss left : List Statement} {x : Text} {r : InitRegistration}

/-- The registration that a statement makes by itself. -/
def Statement.single? (source : Text) (s : Statement) : Option InitRegistration :=
  (s.plain? source).orElse fun _ => s.guarded? source

/-- Whether a statement assigns the result of a registration to a variable that the next one checks. -/
def Statement.IsPair (source : Text) (a check : Statement) (x : Text) (r : InitRegistration) : Prop :=
  a.assigned? source = some (x, r) ∧ check.isErrorCheck x

/-- A registration with the statements that make it: one, or an assignment and a check. -/
structure Removed where
  registration : InitRegistration
  statements : List Statement

/-- The range from the first statement to the last. -/
def Removed.span (m : Removed) : Span :=
  ⟨(m.statements.head?.map (·.span.start)).getD 0, (m.statements.getLast?.map (·.span.stop)).getD 0⟩

/-- How statements are sorted into those that register something and those that are left. -/
inductive Sorts (source : Text) : List Statement → List Removed → List Statement → Prop
  | nil : Sorts source [] [] []
  | single {s : Statement} {r : InitRegistration} {ss left : List Statement} {ms : List Removed}
    (hs : s.single? source = some r) (h : Sorts source ss ms left) : Sorts source (s :: ss) (⟨r, [s]⟩ :: ms) left
  | pair {a check : Statement} {x : Text} {r : InitRegistration} {ss left : List Statement} {ms : List Removed}
    (ha : a.single? source = none) (hpair : a.IsPair source check x r) (h : Sorts source ss ms left) :
    Sorts source (a :: check :: ss) (⟨r, [a, check]⟩ :: ms) left
  | left {s : Statement} {ss left : List Statement} {ms : List Removed} (hs : s.single? source = none)
    (hpair : ∀ check ∈ ss.head?, ∀ x r, ¬ s.IsPair source check x r) (h : Sorts source ss ms left) :
    Sorts source (s :: ss) ms (s :: left)

lemma Sorts.left_sublist {ms : List Removed} (h : Sorts source ss ms left) : left.Sublist ss := by
  induction h with
  | nil => exact .slnil
  | single _ _ ih => exact ih.cons _
  | pair _ _ _ ih => exact (ih.cons _).cons _
  | left _ _ _ ih => exact ih.cons_cons _

lemma Sorts.flatten_sublist {ms : List Removed} (h : Sorts source ss ms left) : left.flatten.Sublist ss.flatten := by
  induction h with
  | nil => exact .slnil
  | single _ _ ih => exact ih.trans (List.sublist_append_right _ _)
  | pair _ _ _ ih => exact ih.trans ((List.sublist_append_right _ _).trans (List.sublist_append_right _ _))
  | left _ _ _ ih => exact ih.append_left _

/-- Statements are sorted in one way. -/
lemma Sorts.unique {ms ms' : List Removed} {left' : List Statement} (h : Sorts source ss ms left) (h' : Sorts source ss ms' left') :
    ms = ms' ∧ left = left' := by
  induction h generalizing ms' left' with
  | nil =>
    cases h'
    exact ⟨rfl, rfl⟩
  | single hs _ ih =>
    cases h' with
    | single hs' h' =>
      rw [hs] at hs'
      cases hs'
      obtain ⟨rfl, rfl⟩ := ih h'
      exact ⟨rfl, rfl⟩
    | pair ha | left ha =>
      rw [hs] at ha
      cases ha
  | pair ha hpair _ ih =>
    cases h' with
    | single hs =>
      rw [ha] at hs
      cases hs
    | pair ha' hpair' h' =>
      have hsame := hpair.1.symm.trans hpair'.1
      cases hsame
      obtain ⟨rfl, rfl⟩ := ih h'
      exact ⟨rfl, rfl⟩
    | left _ hnone => exact absurd hpair (hnone _ rfl _ _)
  | left ha hnone _ ih =>
    cases h' with
    | single hs =>
      rw [ha] at hs
      cases hs
    | pair _ hpair => exact absurd hpair (hnone _ rfl _ _)
    | left _ _ h' =>
      obtain ⟨rfl, rfl⟩ := ih h'
      exact ⟨rfl, rfl⟩

/-- **Every statement is taken out or left.** -/
theorem takeOut_sorts (source : Text) (ss : List Statement) :
    ∃ ms, Sorts source ss ms (takeOut source ss).2 ∧ (takeOut source ss).1 = ms.map fun m => ⟨m.registration, m.span⟩ := by
  fun_induction takeOut source ss with
  | case1 => exact ⟨[], .nil, rfl⟩
  | case2 s ss r hr removals left e ih =>
    rw [e] at ih
    obtain ⟨ms, hms, hspans⟩ := ih
    exact ⟨⟨r, [s]⟩ :: ms, .single hr hms, by rw [List.map_cons, ← hspans]; rfl⟩
  | case3 s hr => exact ⟨[], .left hr (by simp) .nil, rfl⟩
  | case4 s hr check rest x r ha hc removals left e ih =>
    rw [e] at ih
    obtain ⟨ms, hms, hspans⟩ := ih
    exact ⟨⟨r, [s, check]⟩ :: ms, .pair hr ⟨ha, hc⟩ hms, by rw [List.map_cons, ← hspans]; rfl⟩
  | case5 s hr check rest x r ha hc removals left e ih =>
    rw [e] at ih
    obtain ⟨ms, hms, hspans⟩ := ih
    refine ⟨ms, .left hr ?_ hms, hspans⟩
    rintro _ ⟨⟩ y r' ⟨ha', hc'⟩
    rw [ha] at ha'
    cases ha'
    exact hc hc'
  | case6 s hr check rest ha removals left e ih =>
    rw [e] at ih
    obtain ⟨ms, hms, hspans⟩ := ih
    refine ⟨ms, .left hr ?_ hms, hspans⟩
    rintro _ ⟨⟩ y r' ⟨ha', -⟩
    rw [ha] at ha'
    cases ha'

end Sorting

/-! ### Extractions -/

section Extraction

variable {s : Text} {d : Decl} {f : Function} {b : Span} {tree : Tree} {front head inside behind : List Lexeme}

/-- The tokens between the braces of a body. -/
def bodyTokens (s : Text) (b : Span) : List Token :=
  (tokens s).filter fun t => t.isWithin ⟨b.start + 1, b.stop - 1⟩

/-- The statements of a body. -/
def bodyStatements (s : Text) (b : Span) : List Statement :=
  Statement.splitBody 0 [] ((bodyTokens s b).filter (·.kind ≠ .blank))

lemma Source.stop_le_of_mem_place {n : Nat} {ls : List Lexeme} {t : Token} (h : t ∈ place n ls) : t.stop ≤ n + (joined ls).width := by
  obtain ⟨xs, ys, rfl, hstart⟩ := mem_place.1 h
  simp only [joined_append, joined_cons, Text.width_append, Token.lexeme_text, Token.stop]
  omega

lemma Source.Decl.HasBody.tokens_eq (h : d.HasBody s b front head inside behind) :
    tokens s = place 0 (front ++ head ++ [⟨.lbrace, ['{']⟩]) ++
      (place (b.start + 1) inside ++ place (b.stop - 1) (⟨.rbrace, ['}']⟩ :: behind)) := by
  have hwidth := h.width_front
  obtain ⟨A, hA⟩ : ∃ A, A = front ++ head ++ [⟨.lbrace, ['{']⟩] := ⟨_, rfl⟩
  have hlex : lex s = A ++ (inside ++ ⟨.rbrace, ['}']⟩ :: behind) := by
    rw [h.lex_eq, hA]
    simp
  rw [← hA] at hwidth ⊢
  rw [tokens, hlex, place_append, place_append, hwidth, h.stop, Nat.add_sub_cancel, Nat.zero_add]

lemma Source.Decl.HasBody.bodyTokens_eq (h : d.HasBody s b front head inside behind) :
    bodyTokens s b = place (b.start + 1) inside := by
  have hlt : ∀ t ∈ tokens s, t.start < t.stop := fun t ht => start_lt_stop ht
  rw [h.tokens_eq] at hlt
  simp only [List.forall_mem_append] at hlt
  rw [bodyTokens, h.tokens_eq, List.filter_append, List.filter_append, List.filter_eq_nil_iff.2, List.filter_eq_self.2,
    List.filter_eq_nil_iff.2, List.nil_append, List.append_nil]
  · intro t ht
    have := le_start_of_mem_place ht
    have := hlt.2.2 t ht
    simp only [Token.isWithin, Bool.and_eq_true, decide_eq_true_eq]
    omega
  · intro t ht
    have := le_start_of_mem_place ht
    have := stop_le_of_mem_place ht
    have := h.stop
    simp only [Token.isWithin, Bool.and_eq_true, decide_eq_true_eq]
    omega
  · intro t ht
    have := stop_le_of_mem_place ht
    rw [h.width_front] at this
    have := hlt.1 t ht
    simp only [Token.isWithin, Bool.and_eq_true, decide_eq_true_eq]
    omega

/-- What an extraction answers that takes out registrations and leaves statements. -/
def remainder (s : Text) (d : Decl) (ms : List Removed) (left : List Statement) : InitRemainder :=
  ⟨if ms = [] then some (Text.slice s d.spanWithComment.start d.spanWithComment.stop) else if left = [] then none
    else some (withoutCuts s d.spanWithComment.start d.spanWithComment.stop (ms.map fun m => widenCut s m.span)),
    ms.map (·.registration)⟩

/-- How the statements of the body are sorted tells what an extraction answers. -/
lemma extractRegistrations?_of_sorts {ts : List Token} {ms : List Removed} {left : List Statement} (hb : f.body = some b)
    (htokens : tokensBetween? s (b.start + 1) (b.stop - 1) = some ts) (hsorts : Sorts s (Statement.splitBody 0 [] ts) ms left) :
    extractRegistrations? s d f = some (remainder s d ms left) := by
  obtain ⟨ms', hsorts', hremovals⟩ := takeOut_sorts s (Statement.splitBody 0 [] ts)
  obtain ⟨rfl, hleft⟩ := hsorts'.unique hsorts
  simp only [extractRegistrations?, hb, htokens, Option.bind_eq_bind, Option.bind_some]
  rw [hremovals, hleft]
  simp only [List.isEmpty_iff, List.map_eq_nil_iff, List.map_map]
  rfl

/-- **An extraction sorts the statements of the body.** -/
theorem extractRegistrations?_eq (h : parse s = .ok tree) (hd : d ∈ tree.decls) (hf : d.kind = .function f)
    (hb : f.body = some b) :
    ∃ ms left, Sorts s (bodyStatements s b) ms left ∧ extractRegistrations? s d f = some (remainder s d ms left) := by
  obtain ⟨front, head, inside, behind, hbody⟩ := parse_hasBody h hd hf hb
  obtain ⟨ms, hsorts, -⟩ := takeOut_sorts s (bodyStatements s b)
  have htokens : tokensBetween? s (b.start + 1) (b.stop - 1) = some ((bodyTokens s b).filter (·.kind ≠ .blank)) := by
    rw [hbody.bodyTokens_eq, hbody.tokensBetween?_eq]
  exact ⟨ms, _, hsorts, extractRegistrations?_of_sorts hb htokens hsorts⟩

end Extraction

end RuleWeaver
