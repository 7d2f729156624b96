import RuleWeaver.Proofs.Initializer.Cuts
import RuleWeaver.Proofs.Source.Nesting

/-!
# What is removed from a body

Extractions take out whole statements.
-/

namespace RuleWeaver

open Source

section Places

variable {s : Text} {d : Decl} {c : Span} {t : Token} {P P' Q R M L T G ts gap run rest : List Token} {u a check : Statement}
  {ss left : List Statement} {ms : List Removed} {m : Removed}

/-! ### Cuts of statements -/

/-- A cut takes out the code of statements, each with the semicolons behind it.  It does not end inside of a token, blanks
apart. -/
structure Takes (s : Text) (c : Span) (ss : List Statement) (semis : List (List Token)) : Prop where
  whole : ∀ t ∈ tokens s, t.kind ≠ .blank → t.isWithin c ∨ t.stop ≤ c.start ∨ c.stop ≤ t.start
  code : (tokens s).filter (fun t => t.kind.isSignificant && t.isWithin c) = (List.zipWith (· ++ ·) ss semis).flatten
  length_eq : semis.length = ss.length
  semis : ∀ ts ∈ semis, ∀ t ∈ ts, t.kind = .semi

lemma Statement.IsRun.head?_eq (h : u.IsRun run) : u.head? = run.head? := by
  obtain ⟨t, ht, hsig, -⟩ := h.head
  obtain ⟨us, rfl⟩ : ∃ us, run = t :: us := ⟨run.tail, List.eq_cons_of_mem_head? ht⟩
  rw [← h.code]
  simp [hsig]

lemma Statement.IsRun.getLast?_eq (h : u.IsRun run) : u.getLast? = run.getLast? := by
  obtain ⟨t, ht, hsig⟩ := h.last
  obtain ⟨us, rfl⟩ : ∃ us, run = us ++ [t] := List.getLast?_eq_some_iff.1 ht
  rw [← h.code, List.filter_append, List.getLast?_concat]
  simp [hsig]

lemma span_start (h : tokens s = P ++ (run ++ Q)) (hrun : u.IsRun run) : u.span.start = reach P := by
  obtain ⟨t, ht, -⟩ := hrun.head
  rw [Statement.span, hrun.head?_eq, ht]
  obtain ⟨us, rfl⟩ : ∃ us, run = t :: us := ⟨run.tail, List.eq_cons_of_mem_head? ht⟩
  exact start_of_tokens_eq h

lemma span_stop (h : tokens s = P ++ (run ++ Q)) (hrun : u.IsRun run) : u.span.stop = reach (P ++ run) := by
  obtain ⟨t, ht, -⟩ := hrun.last
  rw [Statement.span, hrun.getLast?_eq, ht]
  obtain ⟨us, rfl⟩ : ∃ us, run = us ++ [t] := List.getLast?_eq_some_iff.1 ht
  have hsplit : tokens s = (P ++ us) ++ t :: Q := by
    rw [h]
    simp
  have := stop_of_tokens_eq hsplit
  rw [List.append_assoc] at this
  exact this

/-- A cut takes at most one semicolon behind its run, and only where it is the first that counts. -/
lemma IsCut.exists_semis (hc : IsCut s P R Q c P' L T G) (h : tokens s = P ++ (R ++ Q)) :
    ∃ S, (tokens s).filter (fun t => t.kind.isSignificant && t.isWithin c) = R.filter (·.kind.isSignificant) ++ S ∧ S.length ≤ 1 ∧
      (∀ t ∈ S, t.kind = .semi) ∧ ((∀ t ∈ (Q.filter (·.kind.isCounted)).head?, t.kind ≠ .semi) → S = []) := by
  obtain ⟨W, S, V, rfl, hW, hlength, hS, hV⟩ := hc.shape
  refine ⟨S, ?_, hlength, hS, fun hQ => ?_⟩
  · rw [(hc.whole_and_code h).2]
    have hfilterW : W.filter (·.kind.isSignificant) = [] := List.filter_eq_nil_iff.2 fun t ht => by simp [hW t ht, Kind.isSignificant]
    have hfilterV : V.filter (·.kind.isSignificant) = [] := List.filter_eq_nil_iff.2 fun t ht => by simp [hV t ht]
    have hfilterS : S.filter (·.kind.isSignificant) = S := List.filter_eq_self.2 fun t ht => by simp [hS t ht, Kind.isSignificant]
    rw [List.filter_append, List.filter_append, List.filter_append, hfilterW, hfilterV, hfilterS, List.nil_append, List.append_nil]
  · cases S with
    | nil => rfl
    | cons u S =>
      obtain ⟨K, rfl⟩ := hc.isPrefix
      have hu : u.kind = .semi := hS u List.mem_cons_self
      have hfilterW : W.filter (·.kind.isCounted) = [] :=
        List.filter_eq_nil_iff.2 fun t ht => by simp [hW t ht, Kind.isCounted, Kind.isSignificant]
      have hsplit : W ++ (u :: S ++ V) ++ G ++ K = W ++ u :: (S ++ V ++ G ++ K) := by simp
      refine absurd hu (hQ u ?_)
      rw [hsplit, List.filter_append, hfilterW, List.nil_append, List.filter_cons_of_pos (by rw [hu]; rfl)]
      rfl

/-- How many semicolons go with a registration: at most one behind a statement.  An assignment and its check go with those
between them and with none behind. -/
def AreFew : List (List Token) → Prop
  | [behind] => behind.length ≤ 1
  | [_, behind] => behind = []
  | _ => False

/-- A check ends at a line break only. -/
lemma newline_of_endsAt_check {x : Text} (hcheck : check.isErrorCheck x) (ht : check.endsAt t) : t.kind = .newline := by
  have hheader : check.opensHeader := by
    match check, hcheck with
    | u :: us, hcheck =>
      simp only [Statement.isErrorCheck, Statement.isName, Bool.and_eq_true, decide_eq_true_eq] at hcheck
      simp [Statement.opensHeader, hcheck.1.2]
  simpa [Statement.endsAt, hheader] using ht

/-! ### Cuts one behind the other -/

/-- The cuts of registrations among the tokens `ts`, which have `P` in front of them and `Q` behind. -/
structure AreCuts (s : Text) (P ts Q : List Token) (ms : List Removed) (left : List Statement) : Prop where
  isCut : ∀ m ∈ ms, ∃ M R N P' L T G, ts ++ Q = M ++ (R ++ N) ∧ IsCut s (P ++ M) R N (widenCut s m.span) P' L T G ∧
    ∃ t ∈ R.head?, t.kind.isSignificant ∧ t.kind ≠ .semi
  isRun : ∀ u ∈ left, ∃ M R N, ts ++ Q = M ++ (R ++ N) ∧ u.IsRun R
  takes : ∀ m ∈ ms, ∃ semis, Takes s (widenCut s m.span) m.statements semis ∧ AreFew semis
  ordered : (ms.map fun m => widenCut s m.span).Pairwise (·.stop ≤ ·.start)
  stop_le : ∀ m ∈ ms, (widenCut s m.span).stop ≤ reach (P ++ ts)
  apart : ∀ u ∈ left, ∀ t ∈ u, ∀ m ∈ ms, t.stop ≤ (widenCut s m.span).start ∨ (widenCut s m.span).stop ≤ t.start

lemma Statement.IsRun.mem (h : u.IsRun run) (ht : t ∈ u) : t ∈ run := by
  rw [← h.code] at ht
  exact (List.mem_filter.1 ht).1

/-- Registrations in front of others. -/
lemma AreCuts.removed (h : AreCuts s (P ++ (gap ++ run)) rest Q ms left) (hs : tokens s = P ++ (gap ++ (run ++ (rest ++ Q))))
    (hQ : ∃ t ∈ Q.head?, t.kind.isSignificant ∧ t.kind ≠ .semi)
    (hc : IsCut s (P ++ gap) run (rest ++ Q) (widenCut s m.span) P' L T G)
    (hhead : ∃ t ∈ run.head?, t.kind.isSignificant ∧ t.kind ≠ .semi) (hlast : ∃ t ∈ run.getLast?, t.kind.isSignificant)
    (htakes : ∃ semis, Takes s (widenCut s m.span) m.statements semis ∧ AreFew semis) :
    AreCuts s P (gap ++ (run ++ rest)) Q (m :: ms) left where
  isCut := by
    refine List.forall_mem_cons.2 ⟨⟨gap, run, rest ++ Q, P', L, T, G, by simp, hc, hhead⟩, fun m' hm' => ?_⟩
    obtain ⟨M, R, N, P₁, L₁, T₁, G₁, hsplit, hcut, hR⟩ := h.isCut m' hm'
    refine ⟨gap ++ (run ++ M), R, N, P₁, L₁, T₁, G₁, ?_, by simpa using hcut, hR⟩
    rw [List.append_assoc, List.append_assoc, hsplit]
    simp
  isRun := fun u hu => by
    obtain ⟨M, R, N, hsplit, hR⟩ := h.isRun u hu
    refine ⟨gap ++ (run ++ M), R, N, ?_, hR⟩
    rw [List.append_assoc, List.append_assoc, hsplit]
    simp
  takes := List.forall_mem_cons.2 ⟨htakes, h.takes⟩
  ordered := by
    refine List.pairwise_cons.2 ⟨?_, h.ordered⟩
    simp only [List.mem_map, forall_exists_index, and_imp]
    rintro _ m' hm' rfl
    obtain ⟨M, R, N, P₁, L₁, T₁, G₁, hsplit, hcut, hR⟩ := h.isCut m' hm'
    rw [hsplit] at hc
    exact hc.stop_le_start (by simpa using hcut) hlast hR
  stop_le := by
    refine List.forall_mem_cons.2 ⟨?_, fun m' hm' => ?_⟩
    · have := hc.stop_le hQ
      simpa using this
    · have := h.stop_le m' hm'
      simpa using this
  apart := fun u hu t ht => by
    refine List.forall_mem_cons.2 ⟨.inr ?_, h.apart u hu t ht⟩
    obtain ⟨M, R, N, hsplit, hR⟩ := h.isRun u hu
    rw [hsplit] at hc hs
    have hstop := hc.stop_le (by
      obtain ⟨t, ht, h⟩ := hR.head
      exact ⟨t, by rw [List.head?_append, ht]; rfl, h⟩)
    have hs' : tokens s = (P ++ gap ++ (run ++ M)) ++ (R ++ N) := by
      rw [hs]
      simp
    exact hstop.trans (reach_le_start hs' (List.mem_append_left _ (hR.mem ht)))

/-- A statement that is left in front of registrations. -/
lemma AreCuts.kept (h : AreCuts s (P ++ (gap ++ run)) rest Q ms left) (hs : tokens s = P ++ (gap ++ (run ++ (rest ++ Q))))
    (hrun : u.IsRun run) : AreCuts s P (gap ++ (run ++ rest)) Q ms (u :: left) where
  isCut := fun m' hm' => by
    obtain ⟨M, R, N, P₁, L₁, T₁, G₁, hsplit, hcut, hR⟩ := h.isCut m' hm'
    refine ⟨gap ++ (run ++ M), R, N, P₁, L₁, T₁, G₁, ?_, by simpa using hcut, hR⟩
    rw [List.append_assoc, List.append_assoc, hsplit]
    simp
  isRun := by
    refine List.forall_mem_cons.2 ⟨⟨gap, run, rest ++ Q, by simp, hrun⟩, fun u hu => ?_⟩
    obtain ⟨M, R, N, hsplit, hR⟩ := h.isRun u hu
    refine ⟨gap ++ (run ++ M), R, N, ?_, hR⟩
    rw [List.append_assoc, List.append_assoc, hsplit]
    simp
  takes := h.takes
  ordered := h.ordered
  stop_le := fun m' hm' => by simpa using h.stop_le m' hm'
  apart := by
    refine List.forall_mem_cons.2 ⟨fun t ht m' hm' => .inl ?_, h.apart⟩
    obtain ⟨M, R, N, P₁, L₁, T₁, G₁, -, hcut, -⟩ := h.isCut m' hm'
    have hstart := hcut.le_start (by
      obtain ⟨t, ht, h⟩ := hrun.last
      exact ⟨t, by rw [List.getLast?_append, List.getLast?_append, ht]; rfl, h⟩)
    have hs' : tokens s = (P ++ (gap ++ run)) ++ (rest ++ Q) := by
      rw [hs]
      simp
    exact (stop_le_reach hs' (by simp [hrun.mem ht])).trans hstart

/-- A statement can begin behind what stands in front of one. -/
lemma opensStatement_append (hgap : ∀ t ∈ gap, t.kind.isSignificant → t.kind = .semi) (hrun : u.IsRun run)
    (h : OpensStatement P ∨ ∃ s : Statement, ((gap ++ (run ++ rest)).filter (·.kind.isCounted)).head?.all s.endsAt) :
    OpensStatement (P ++ gap) := by
  by_cases hcounted : ∃ t ∈ gap, t.kind.isCounted
  · obtain ⟨X, t, Y, rfl, ht, hY⟩ := exists_last hcounted
    refine ⟨P ++ X, t, Y, by simp, ?_, hY⟩
    simp only [Kind.isCounted, Bool.or_eq_true, decide_eq_true_eq] at ht
    rcases ht with hsig | hn
    · exact .inr (.inl (hgap t (by simp) hsig))
    · exact .inl hn
  · have hnone : ∀ t ∈ gap, t.kind.isCounted = false := fun t ht => Bool.eq_false_iff.2 fun h => hcounted ⟨t, ht, h⟩
    rcases h with ⟨P₀, t, G, rfl, ht, hG⟩ | ⟨s, h⟩
    · exact ⟨P₀, t, G ++ gap, by simp, ht, List.forall_mem_append.2 ⟨hG, hnone⟩⟩
    · -- the run would begin with what ends a statement
      obtain ⟨t, us, htu, hline, hsemi⟩ := hrun.head_counted
      rw [List.filter_append, List.filter_append, List.filter_eq_nil_iff.2 (by simpa using hnone), htu] at h
      simp [Statement.endsAt, hline, hsemi] at h

/-- **The cuts of the registrations among the statements of a body.** -/
theorem areCuts (hw : isWhole s) (hsorts : Sorts s ss ms left) (hs : tokens s = P ++ (ts ++ Q)) (hlaid : Laid ts ss)
    (hopen : OpensStatement P ∨ ∃ s : Statement, (ts.filter (·.kind.isCounted)).head?.all s.endsAt)
    (hQ : ∃ t ∈ Q.head?, t.kind.isSignificant ∧ t.kind ≠ .semi) : AreCuts s P ts Q ms left := by
  induction hsorts generalizing P ts with
  | nil => exact ⟨by simp, by simp, by simp, List.Pairwise.nil, by simp, by simp⟩
  | @single u r ss left ms hu _ ih =>
    cases hlaid with
    | @cons gap run rest _ _ hgap hrun hrest hlaid =>
      have hs' : tokens s = P ++ (gap ++ (run ++ (rest ++ Q))) := by simpa using hs
      have hsplit : tokens s = (P ++ gap) ++ (run ++ (rest ++ Q)) := by simpa using hs
      obtain ⟨P', L, T, G, hcut⟩ := exists_cut hw hsplit (opensStatement_append hgap hrun hopen)
      have hspan : Removed.span ⟨r, [u]⟩ = ⟨reach (P ++ gap), reach (P ++ gap ++ run)⟩ := by
        rw [← span_start hsplit hrun, ← span_stop hsplit hrun]
        rfl
      rw [← hspan] at hcut
      obtain ⟨S, hcode, hlength, hS, -⟩ := hcut.exists_semis hsplit
      refine (ih (by simpa using hs) hlaid (.inr ⟨_, hrest⟩)).removed hs' hQ hcut hrun.head hrun.last ⟨[S], ?_, hlength⟩
      exact ⟨(hcut.whole_and_code hsplit).1, by rw [hcode, hrun.code]; simp, rfl, by simpa using hS⟩
  | @pair a check x r ss left ms ha hpair _ ih =>
    cases hlaid with
    | @cons gap run _ _ _ hgap hrun hrest hlaid =>
      cases hlaid with
      | @cons between run₂ rest _ _ hbetween hrun₂ hrest₂ hlaid =>
        -- the cut goes from the assignment to the check
        have hs' : tokens s = P ++ (gap ++ ((run ++ (between ++ run₂)) ++ (rest ++ Q))) := by simpa using hs
        have hsplit : tokens s = (P ++ gap) ++ ((run ++ (between ++ run₂)) ++ (rest ++ Q)) := by simpa using hs
        have hsplit₁ : tokens s = (P ++ gap) ++ (run ++ (between ++ (run₂ ++ (rest ++ Q)))) := by simpa using hs
        have hsplit₂ : tokens s = (P ++ gap ++ (run ++ between)) ++ (run₂ ++ (rest ++ Q)) := by simpa using hs
        obtain ⟨P', L, T, G, hcut⟩ := exists_cut hw hsplit (opensStatement_append hgap hrun hopen)
        have hspan : Removed.span ⟨r, [a, check]⟩ = ⟨reach (P ++ gap), reach (P ++ gap ++ (run ++ (between ++ run₂)))⟩ := by
          rw [← span_start hsplit₁ hrun, ← List.append_assoc run, ← List.append_assoc (P ++ gap), ← span_stop hsplit₂ hrun₂]
          rfl
        rw [← hspan] at hcut
        obtain ⟨S, hcode, -, -, hnone⟩ := hcut.exists_semis hsplit
        have hbehind : S = [] := hnone fun t ht => by
          rw [List.filter_append, List.head?_append] at ht
          cases hcounted : (rest.filter (·.kind.isCounted)).head? with
          | none =>
            rw [hcounted, Option.none_or] at ht
            obtain ⟨q, hq, hsig, hsemi⟩ := hQ
            obtain ⟨qs, rfl⟩ : ∃ qs, Q = q :: qs := ⟨Q.tail, List.eq_cons_of_mem_head? hq⟩
            rw [List.filter_cons_of_pos (by simp [Kind.isCounted, hsig])] at ht
            cases ht
            exact hsemi
          | some u =>
            rw [hcounted] at ht hrest₂
            cases ht
            simp [newline_of_endsAt_check hpair.2 hrest₂]
        have hhead : ∃ t ∈ (run ++ (between ++ run₂)).head?, t.kind.isSignificant ∧ t.kind ≠ .semi := by
          obtain ⟨t, ht, h⟩ := hrun.head
          exact ⟨t, by rw [List.head?_append, ht]; rfl, h⟩
        have hlast : ∃ t ∈ (run ++ (between ++ run₂)).getLast?, t.kind.isSignificant := by
          obtain ⟨t, ht, h⟩ := hrun₂.last
          exact ⟨t, by rw [List.getLast?_append, List.getLast?_append, ht]; rfl, h⟩
        have hrest' := (ih (by simpa using hs) hlaid (.inr ⟨_, hrest₂⟩)).removed (m := ⟨r, [a, check]⟩) hs' hQ hcut hhead hlast
          ⟨[between.filter (·.kind.isSignificant), []], ?_, rfl⟩
        · simpa using hrest'
        · refine ⟨(hcut.whole_and_code hsplit).1, ?_, rfl, ?_⟩
          · rw [hcode, hbehind, List.filter_append, List.filter_append, hrun.code, hrun₂.code]
            simp
          · simpa using hbetween
  | @left u ss left ms hu hpair _ ih =>
    cases hlaid with
    | @cons gap run rest _ _ hgap hrun hrest hlaid =>
      exact (ih (by simpa using hs) hlaid (.inr ⟨_, hrest⟩)).kept (by simpa using hs) hrun

end Places

/-! ### What is left of a text -/

section Left

open Text (IsBoundary)

variable {s a b t : Text} {ts us : List Text} {i j k cursor stop : Nat} {c full : Span} {cuts : List Span} {kept : List Token}

/-- Whether texts stand in a text, one behind the other. -/
inductive Text.Holds : Text → List Text → Prop
  | nil (s : Text) : Holds s []
  | cons (gap t : Text) {rest : Text} {ts : List Text} (h : Holds rest ts) : Holds (gap ++ (t ++ rest)) (t :: ts)

lemma Text.Holds.append_left (h : Holds s ts) : Holds (a ++ s) ts := by
  cases h with
  | nil => exact .nil _
  | cons gap t h =>
    rw [← List.append_assoc]
    exact .cons (a ++ gap) t h

lemma Text.Holds.append (h : Holds a ts) (h' : Holds b us) : Holds (a ++ b) (ts ++ us) := by
  induction h with
  | nil => exact h'.append_left
  | cons gap t h ih =>
    rw [List.append_assoc, List.append_assoc]
    exact .cons gap t ih

lemma slice_append (hi : IsBoundary s i) (hj : IsBoundary s j) (hk : IsBoundary s k) (hij : i ≤ j) (hjk : j ≤ k) :
    Text.slice s i k = Text.slice s i j ++ Text.slice s j k := by
  obtain ⟨u, v, rfl, rfl⟩ := hi
  obtain ⟨w, v, rfl, rfl⟩ := hj.cut hij
  rw [← List.append_assoc] at hk
  obtain ⟨x, v, rfl, rfl⟩ := hk.cut (by rwa [Text.width_append])
  have hwhole : Text.slice (u ++ (w ++ (x ++ v))) u.width ((u ++ w).width + x.width) = w ++ x := by
    rw [← List.append_assoc w, Text.width_append u, Nat.add_assoc, ← Text.width_append w]
    exact Text.slice_width_append
  have hbehind : Text.slice (u ++ (w ++ (x ++ v))) (u ++ w).width ((u ++ w).width + x.width) = x := by
    rw [← List.append_assoc u]
    exact Text.slice_width_append
  rw [hwhole, Text.slice_width_append, ← Text.width_append u w, hbehind]

/-- Tokens of a range stand in its text. -/
lemma holds_slice (hkept : kept.Sublist (tokens s)) (hi : IsBoundary s i) (hk : IsBoundary s k)
    (hin : ∀ t ∈ kept, i ≤ t.start ∧ t.stop ≤ k) : Text.Holds (Text.slice s i k) (kept.map (·.text)) := by
  induction kept generalizing i with
  | nil => exact .nil _
  | cons t kept ih =>
    have hmem : t ∈ tokens s := hkept.subset List.mem_cons_self
    obtain ⟨hstart, hstop⟩ := Token.isIn_of_mem_tokens hmem
    obtain ⟨⟨hit, htk⟩, hin⟩ := List.forall_mem_cons.1 hin
    have hordered := List.pairwise_cons.1 (List.Pairwise.sublist hkept pairwise_place)
    have hlt := start_lt_stop hmem
    rw [slice_append hi hstart hk hit (by omega), slice_append hstart hstop hk hlt.le htk, slice_of_mem_tokens hmem]
    exact .cons _ _ (ih ((List.sublist_cons_self t kept).trans hkept) hstop fun u hu => ⟨hordered.1 u hu, (hin u hu).2⟩)

/-- Tokens that no cut touches stand in what the cuts leave. -/
lemma holds_withoutCuts (hkept : kept.Sublist (tokens s)) (hcursor : IsBoundary s cursor) (hstop : IsBoundary s stop)
    (hcuts : ∀ c ∈ cuts, IsBoundary s c.start ∧ IsBoundary s c.stop ∧ c.start ≤ c.stop) (hordered : cuts.Pairwise (·.stop ≤ ·.start))
    (hin : ∀ t ∈ kept, cursor ≤ t.start ∧ t.stop ≤ stop) (hapart : ∀ t ∈ kept, ∀ c ∈ cuts, t.stop ≤ c.start ∨ c.stop ≤ t.start) :
    Text.Holds (withoutCuts s cursor stop cuts) (kept.map (·.text)) := by
  induction cuts generalizing cursor kept with
  | nil => exact holds_slice hkept hcursor hstop hin
  | cons c cuts ih =>
    obtain ⟨⟨hstart, hend, hle⟩, hcuts⟩ := List.forall_mem_cons.1 hcuts
    obtain ⟨-, hordered⟩ := List.pairwise_cons.1 hordered
    have hpairwise : kept.Pairwise (·.stop ≤ ·.start) := List.Pairwise.sublist hkept pairwise_place
    -- the tokens in front of the cut and those behind it
    obtain ⟨before, after, rfl, hbefore, hafter⟩ : ∃ before after, kept = before ++ after ∧ (∀ t ∈ before, t.stop ≤ c.start) ∧
        ∀ t ∈ after, c.stop ≤ t.start := by
      refine ⟨kept.takeWhile (·.stop ≤ c.start), kept.dropWhile (·.stop ≤ c.start), List.takeWhile_append_dropWhile.symm, ?_, ?_⟩
      · exact fun t ht => of_decide_eq_true (List.all_eq_true.1 List.all_takeWhile t ht)
      · have hsublist : (kept.dropWhile (·.stop ≤ c.start)).Sublist kept := List.dropWhile_sublist _
        have hhead := List.head?_dropWhile_not (fun t : Token => decide (t.stop ≤ c.start)) kept
        cases hdrop : kept.dropWhile (·.stop ≤ c.start) with
        | nil => simp
        | cons u after =>
          rw [hdrop] at hsublist hhead
          have hu : c.stop ≤ u.start := (hapart u (hsublist.subset List.mem_cons_self) c List.mem_cons_self).resolve_left
            (by simpa using hhead)
          refine List.forall_mem_cons.2 ⟨hu, fun v hv => ?_⟩
          have hlt := u.start_le_stop
          have := (List.pairwise_cons.1 (hpairwise.sublist hsublist)).1 v hv
          omega
    rw [List.forall_mem_append] at hin hapart
    rw [List.map_append]
    refine Text.Holds.append (holds_slice ((List.sublist_append_left _ _).trans hkept) hcursor hstart fun t ht =>
      ⟨(hin.1 t ht).1, hbefore t ht⟩) (ih ((List.sublist_append_right _ _).trans hkept) hend hcuts hordered ?_ ?_)
    · exact fun t ht => ⟨hafter t ht, (hin.2 t ht).2⟩
    · exact fun t ht c' hc' => hapart.2 t ht c' (List.mem_cons_of_mem c hc')

end Left

/-! ### Extractions -/

section Extraction

open Text (IsBoundary)

variable {s : Text} {tree : Tree} {d : Decl} {f : Function} {b : Span}

/-- The code of a range that no cut takes. -/
def keptCode (s : Text) (full : Span) (cuts : List Span) : List Token :=
  (tokens s).filter fun t => t.kind.isSignificant && (t.isWithin full && cuts.all fun c => !t.isWithin c)

/-- How registrations are taken out of a function, and nothing else.  `IsAllowed` tells which semicolons a cut may take
behind its statements. -/
structure TakesOut (s : Text) (d : Decl) (b : Span) (IsAllowed : List (List Token) → Prop) (r : InitRemainder)
    (ms : List Removed) (left : List Statement) (cuts : List Span) : Prop where
  sorts : Sorts s (bodyStatements s b) ms left
  registrations : r.registrations = ms.map (·.registration)
  /-- The text is unchanged when nothing is taken out, and absent only when no statement is left. -/
  text : r.text = if ms = [] then some (Text.slice s d.spanWithComment.start d.spanWithComment.stop) else if left = [] then none
    else some (withoutCuts s d.spanWithComment.start d.spanWithComment.stop cuts)
  takes : List.Forall₂ (fun m c => ∃ semis, Takes s c m.statements semis ∧ IsAllowed semis) ms cuts
  ordered : cuts.Pairwise (·.stop ≤ ·.start)
  inside : ∀ c ∈ cuts, d.spanWithComment.start ≤ c.start ∧ c.start ≤ c.stop ∧ c.stop ≤ d.spanWithComment.stop
  /-- The statements that are left are kept, in their order. -/
  keeps : left.flatten.Sublist (keptCode s d.spanWithComment cuts)
  /-- So is all code that is not taken out. -/
  holds : ∀ text ∈ r.text, Text.Holds text ((keptCode s d.spanWithComment cuts).map (·.text))

section Body

variable {front head inside behind : List Lexeme} {P Q : List Token} {ms : List Removed} {left : List Statement} {c : Span}
  {t : Token} {text : Text} {cuts : List Span}

/-- The cuts of the registrations of a body. -/
lemma exists_areCuts (hbody : d.HasBody s b front head inside behind) (hsorts : Sorts s (bodyStatements s b) ms left) :
    ∃ P Q, tokens s = P ++ (bodyTokens s b ++ Q) ∧ reach P = b.start + 1 ∧ (∃ t ∈ P.getLast?, t.kind.isSignificant) ∧
      AreCuts s P (bodyTokens s b) Q ms left := by
  have htokens := hbody.tokens_eq
  rw [← hbody.bodyTokens_eq, place_append] at htokens
  refine ⟨_, _, htokens, ?_, ⟨_, List.getLast?_concat, rfl⟩,
    areCuts hbody.isWhole hsorts htokens laid_splitBody (.inl ⟨_, _, [], rfl, .inr (.inr rfl), by simp⟩) ⟨_, rfl, rfl, by simp⟩⟩
  rw [← place_append, reach, map_lexeme_place, hbody.width_front]

lemma width_bodyTokens (hbody : d.HasBody s b front head inside behind) :
    d.spanWithComment.start ≤ b.start ∧ b.start + 1 + reach (bodyTokens s b) + 1 = d.spanWithComment.stop := by
  have hstart := hbody.start
  rw [joined_append, Text.width_append] at hstart
  rw [hbody.bodyTokens_eq, reach, map_lexeme_place]
  refine ⟨?_, (hbody.stop.symm.trans hbody.span_stop.symm)⟩
  show d.commentStart ≤ _
  rw [hbody.commentStart]
  omega

lemma cut_inside (hbody : d.HasBody s b front head inside behind) (htokens : tokens s = P ++ (bodyTokens s b ++ Q))
    (hreach : reach P = b.start + 1) (hlast : ∃ t ∈ P.getLast?, t.kind.isSignificant)
    (hcuts : AreCuts s P (bodyTokens s b) Q ms left) (hc : c ∈ ms.map fun m => widenCut s m.span) :
    (d.spanWithComment.start ≤ c.start ∧ c.start ≤ c.stop ∧ c.stop ≤ d.spanWithComment.stop) ∧
      IsBoundary s c.start ∧ IsBoundary s c.stop := by
  obtain ⟨m, hm, rfl⟩ := List.mem_map.1 hc
  obtain ⟨M, R, N, P', L, T, G, hsplit, hcut, -⟩ := hcuts.isCut m hm
  have hstart := hcut.le_start hlast
  have hstop := hcuts.stop_le m hm
  have hwidth := width_bodyTokens hbody
  rw [reach_append] at hstop
  exact ⟨⟨by omega, hcut.start_le_stop, by omega⟩, hcut.isBoundary_start (by rw [htokens, hsplit, List.append_assoc]), hcut.isBoundary⟩

/-- The statements that are left are outside of the cuts. -/
lemma left_sublist_keptCode (hbody : d.HasBody s b front head inside behind) (hsorts : Sorts s (bodyStatements s b) ms left)
    (hcuts : AreCuts s P (bodyTokens s b) Q ms left) :
    left.flatten.Sublist (keptCode s d.spanWithComment (ms.map fun m => widenCut s m.span)) := by
  have hlaid : Laid (bodyTokens s b) (bodyStatements s b) := laid_splitBody
  have hbodyTokens : left.flatten.Sublist (bodyTokens s b) := hsorts.flatten_sublist.trans hlaid.sublist
  have hsublist : left.flatten.Sublist (tokens s) := hbodyTokens.trans List.filter_sublist
  have hkept := hsublist.filter fun t => t.kind.isSignificant &&
    (t.isWithin d.spanWithComment && (ms.map fun m => widenCut s m.span).all fun c => !t.isWithin c)
  rwa [List.filter_eq_self.2] at hkept
  intro t ht
  obtain ⟨u, hu, htu⟩ := List.mem_flatten.1 ht
  have hwithin := (List.mem_filter.1 (hbodyTokens.subset ht)).2
  have hwidth := width_bodyTokens hbody
  have hlt := start_lt_stop (hsublist.subset ht)
  have hstop : b.stop = d.spanWithComment.stop := hbody.span_stop.symm
  simp only [Token.isWithin, Bool.and_eq_true, decide_eq_true_eq] at hwithin
  simp only [Bool.and_eq_true, List.all_eq_true, List.mem_map, forall_exists_index, and_imp, forall_apply_eq_imp_iff₂, Bool.not_eq_true',
    Token.isWithin, decide_eq_true_eq, Bool.and_eq_false_iff, decide_eq_false_iff_not]
  refine ⟨hlaid.isSignificant (hsorts.left_sublist.subset hu) htu, ⟨by omega, by omega⟩, fun m hm => ?_⟩
  have := hcuts.apart u hu t htu m hm
  omega

end Body

/-- **Registrations are removed and nothing else**: with a registration go comments, white space, the semicolons between an
assignment and its check, and one semicolon behind. -/
theorem extraction_takes_registrations (h : parse s = .ok tree) (hd : d ∈ tree.decls) (hf : d.kind = .function f)
    (hb : f.body = some b) : ∃ r ms left cuts, extractRegistrations? s d f = some r ∧
      TakesOut s d b AreFew r ms left cuts := by
  obtain ⟨front, head, inside, behind, hbody⟩ := parse_hasBody h hd hf hb
  obtain ⟨ms, left, hsorts, hextract⟩ := extractRegistrations?_eq h hd hf hb
  obtain ⟨P, Q, htokens, hreach, hlast, hcuts⟩ := exists_areCuts hbody hsorts
  have hinside : ∀ c ∈ ms.map fun m => widenCut s m.span, _ := fun c hc => cut_inside hbody htokens hreach hlast hcuts hc
  refine ⟨_, ms, left, _, hextract, hsorts, rfl, rfl, ?_, hcuts.ordered, fun c hc => (hinside c hc).1,
    left_sublist_keptCode hbody hsorts hcuts, fun text htext => ?_⟩
  · rw [List.forall₂_map_right_iff, List.forall₂_same]
    exact hcuts.takes
  -- the text, when there is one, is what the cuts leave
  have hwithout : text = withoutCuts s d.spanWithComment.start d.spanWithComment.stop (ms.map fun m => widenCut s m.span) := by
    dsimp only [remainder] at htext
    split at htext
    · next hnil =>
      rw [hnil]
      exact (Option.some.inj htext).symm
    · split at htext
      · cases htext
      · exact (Option.some.inj htext).symm
  rw [hwithout]
  refine holds_withoutCuts List.filter_sublist hbody.isBoundary.1 hbody.isBoundary.2
    (fun c hc => ⟨(hinside c hc).2.1, (hinside c hc).2.2, (hinside c hc).1.2.1⟩) hcuts.ordered (fun t ht => ?_) fun t ht c hc => ?_
  · have := (List.mem_filter.1 ht).2
    simp only [Bool.and_eq_true, Token.isWithin, decide_eq_true_eq] at this
    exact this.2.1
  · obtain ⟨hmem, hkept⟩ := List.mem_filter.1 ht
    simp only [Bool.and_eq_true, List.all_eq_true, Bool.not_eq_true'] at hkept
    obtain ⟨m, hm, rfl⟩ := List.mem_map.1 hc
    obtain ⟨semis, htakes, -⟩ := hcuts.takes m hm
    have hblank : t.kind ≠ .blank := fun hk => by simp [hk, Kind.isSignificant] at hkept
    exact (htakes.whole t hmem hblank).resolve_left (by simp [hkept.2.2 _ hc])

/-- A file with two semicolons between an assignment and its check. -/
def emptyStatementFile : Text := "package a;func init()\x7bx:=v.RegisterValidation(\"z\",f);;if x!=nil\x7b\x7d\nb()\x7d"

def emptyStatementFunction : Function := ⟨"init", none, some ⟨21, 70⟩⟩

def emptyStatementDecl : Decl := ⟨.function emptyStatementFunction, ⟨10, 70⟩, 10⟩

/-- The code of that file between two offsets. -/
def emptyStatementCode (start stop : Nat) : Statement :=
  (tokens emptyStatementFile).filter fun t => t.kind.isSignificant && t.isWithin ⟨start, stop⟩

lemma parse_emptyStatementFile : parse emptyStatementFile = .ok ⟨⟨"a", ⟨0, 9⟩⟩, [], [emptyStatementDecl]⟩ := by
  apply ok_of_toOption
  unfold emptyStatementFile
  repeat rw [String.toList_ofList]
  decide +kernel

/-- The registration is taken out of that file, and the other statement is left. -/
theorem emptyStatementFile_takes_registration : ∃ r ms left cuts,
    extractRegistrations? emptyStatementFile emptyStatementDecl emptyStatementFunction = some r ∧
      TakesOut emptyStatementFile emptyStatementDecl ⟨21, 70⟩ AreFew r ms left cuts :=
  extraction_takes_registrations parse_emptyStatementFile (by decide) rfl rfl

lemma sorts_emptyStatementFile : Sorts emptyStatementFile (bodyStatements emptyStatementFile ⟨21, 70⟩)
    [⟨⟨"z", .named "f"⟩, [emptyStatementCode 22 52, emptyStatementCode 54 65]⟩] [emptyStatementCode 66 69] := by
  have hstatements : bodyStatements emptyStatementFile ⟨21, 70⟩ =
      [emptyStatementCode 22 52, emptyStatementCode 54 65, emptyStatementCode 66 69] := by
    unfold emptyStatementCode emptyStatementFile
    repeat rw [String.toList_ofList]
    decide +kernel
  rw [hstatements]
  refine .pair (x := "x") ?_ ⟨?_, ?_⟩ (.left ?_ (by simp) .nil) <;>
    · unfold emptyStatementCode emptyStatementFile
      repeat rw [String.toList_ofList]
      decide +kernel

/-- No cut takes just one semicolon there: both stand between the assignment and its check. -/
theorem emptyStatementFile_loses_both_semicolons :
    extractRegistrations? emptyStatementFile emptyStatementDecl emptyStatementFunction =
      some ⟨some "func init()\x7b\nb()\x7d", [⟨"z", .named "f"⟩]⟩ ∧
    ∀ r ms left cuts, ¬ TakesOut emptyStatementFile emptyStatementDecl ⟨21, 70⟩ (·.flatten.length ≤ 1) r ms left cuts := by
  refine ⟨?_, fun r ms left cuts h => ?_⟩
  · unfold emptyStatementFile
    repeat rw [String.toList_ofList]
    decide +kernel
  obtain ⟨rfl, -⟩ := h.sorts.unique sorts_emptyStatementFile
  obtain ⟨c, cuts, ⟨semis, htakes, hfew⟩, -, -⟩ := List.forall₂_cons_left_iff.1 h.takes
  obtain ⟨between, behind, rfl⟩ := List.length_eq_two.1 htakes.length_eq
  have hcode := htakes.code
  have hfacts : (⟨.ident, "x", 22⟩ : Token) ∈ emptyStatementCode 22 52 ∧ (⟨.rbrace, "\x7d", 64⟩ : Token) ∈ emptyStatementCode 54 65 ∧
      (emptyStatementCode 22 52).filter (·.kind = .semi) = [] ∧ (emptyStatementCode 54 65).filter (·.kind = .semi) = [] ∧
      ((emptyStatementCode 22 65).filter (·.kind = .semi)).length = 2 := by
    unfold emptyStatementCode emptyStatementFile
    repeat rw [String.toList_ofList]
    decide +kernel
  obtain ⟨hx, hbrace, ha, hcheck, htwo⟩ := hfacts
  simp only [List.zipWith_cons_cons, List.zipWith_nil_left, List.flatten_cons, List.flatten_nil, List.append_nil] at hcode
  -- the cut reaches from the variable to the brace
  have hwithin : ∀ t ∈ emptyStatementCode 22 52 ++ between ++ (emptyStatementCode 54 65 ++ behind), t.isWithin c := fun t ht => by
    rw [← hcode] at ht
    exact (Bool.and_eq_true_iff.1 (List.mem_filter.1 ht).2).2
  have hstart := hwithin _ (List.mem_append_left _ (List.mem_append_left _ hx))
  have hstop := hwithin _ (List.mem_append_right _ (List.mem_append_left _ hbrace))
  have hsublist : (emptyStatementCode 22 65).Sublist ((tokens emptyStatementFile).filter fun t => t.kind.isSignificant && t.isWithin c) := by
    refine List.monotone_filter_right _ fun t => ?_
    simp only [Token.isWithin, Bool.and_eq_true, decide_eq_true_eq] at hstart hstop ⊢
    rintro ⟨hsig, hle, hge⟩
    have hend : Token.stop ⟨.rbrace, "\x7d", 64⟩ = 65 := rfl
    exact ⟨hsig, hstart.1.trans hle, hge.trans (hend ▸ hstop.2)⟩
  have hlength := (hsublist.filter (·.kind = .semi)).length_le
  rw [hcode, htwo] at hlength
  simp only [List.filter_append, ha, hcheck, List.nil_append, List.length_append] at hlength
  have := List.length_filter_le (·.kind = Kind.semi) between
  have := List.length_filter_le (·.kind = Kind.semi) behind
  simp at hfew
  omega

end Extraction

end RuleWeaver
