import RuleWeaver.Proofs.Detection.Functions

/-!
# Finding methods

The head of a `Validate` method is recognised by its text.  What is recognised stands wherever white space allows it
(`MethodHead`), and every head is found, since none begins inside of another one (`mem_methodTypes_iff`).
-/

namespace RuleWeaver.Detection

open Unicode (isSpace isWord)
open Source (commentsBlanked)

variable {fresh : Bool} {a b s t u v w rest type : Text} {c : Char}

/-- Whether a text consists of word characters, of which there is at least one. -/
def IsWordText (s : Text) : Prop := s ≠ [] ∧ s.all isWord

/-- Whether a text begins with a receiver of a type, behind a star or not, and the parenthesis that closes it. -/
def PlainReceiver (type s rest : Text) : Prop :=
  ∃ star w w', (star = [] ∨ star = ['*']) ∧ w.all isSpace ∧ IsWordText type ∧ w'.all isSpace ∧
    s = star ++ (w ++ (type ++ (w' ++ ')' :: rest)))

/-- Whether a text begins with a receiver, which a name and white space may precede. -/
def ReceiverHead (type s rest : Text) : Prop :=
  PlainReceiver type s rest ∨
    ∃ name w s', IsWordText name ∧ w ≠ [] ∧ w.all isSpace ∧ s = name ++ (w ++ s') ∧ PlainReceiver type s' rest

/-- Whether a text begins with the head of a `Validate` method: white space may stand between its parts. -/
def MethodHead (type s rest : Text) : Prop :=
  ∃ w₀ w₁ r r' w₂ w₃ w₄, w₀.all isSpace ∧ w₁.all isSpace ∧ ReceiverHead type r r' ∧ w₂.all isSpace ∧ w₃.all isSpace ∧
    w₄.all isSpace ∧ s = "func".toList ++ (w₀ ++ '(' :: (w₁ ++ r)) ∧
    r' = w₂ ++ ("Validate".toList ++ (w₃ ++ '(' :: (w₄ ++ ')' :: rest)))

/-! ### Reading the parts of a head -/

lemma opensCode_open : OpensCode "(".toList := ⟨'(', [], rfl, by decide⟩
lemma opensCode_close : OpensCode ")".toList := ⟨')', [], rfl, by decide⟩
lemma opensCode_validate : OpensCode "Validate".toList := ⟨'V', "alidate".toList, rfl, by decide⟩

lemma readWord?_eq_some : readWord? s = some (a, rest) → IsWordText a ∧ s = a ++ rest := by
  unfold readWord?
  dsimp only
  split
  · exact fun h => by cases h
  · next hne =>
    intro h
    cases h
    exact ⟨⟨hne, List.all_takeWhile⟩, List.takeWhile_append_dropWhile.symm⟩

lemma readWord?_append (ha : IsWordText a) (hc : isWord c = false) : readWord? (a ++ c :: s) = some (a, c :: s) := by
  have hall : ∀ d ∈ a, isWord d := List.all_eq_true.1 ha.2
  rw [readWord?, Text.takeWhile_append_cons hc, Text.dropWhile_append_cons hc, List.takeWhile_eq_self_iff.2 hall,
    List.dropWhile_eq_nil_iff.2 hall, if_neg ha.1]
  rfl

lemma IsWordText.exists_cons (h : IsWordText s) : ∃ c t, s = c :: t ∧ isWord c ∧ isSpace c = false := by
  obtain ⟨hne, hall⟩ := h
  obtain ⟨c, t, rfl⟩ := List.exists_cons_of_ne_nil hne
  have hc : isWord c := List.all_eq_true.1 hall c List.mem_cons_self
  refine ⟨c, t, rfl, hc, ?_⟩
  by_contra hs
  rw [not_isWord_of_isSpace (by simpa using hs)] at hc
  cases hc

/-- Reads a receiver without a name. -/
def readPlain? (s : Text) : Option (Text × Text) :=
  (readWord? (skipGap ((Text.strip? "*" s).getD s))).bind fun p =>
    (readShape? [.gap, .text ")"] p.2).map fun rest => (p.1, rest)

lemma readReceiver?_eq : readReceiver? s =
    (((readWord? s).bind fun p => (skipSpace? p.2).bind readPlain?).orElse fun _ => readPlain? s) := by
  have hplain : ∀ s, ((readWord? (skipGap ((Text.strip? "*" s).getD s))).bind fun p =>
      (readShape? [.gap, .text ")"] p.2).bind fun rest => some (p.1, rest)) = readPlain? s := by
    intro s
    unfold readPlain?
    congr
    funext p
    rw [Option.map_eq_bind]
    rfl
  simp only [readReceiver?, Option.bind_eq_bind, Option.pure_def, hplain]

lemma PlainReceiver.skipGap (h : PlainReceiver type s rest) : PlainReceiver type (skipGap s) rest := by
  obtain ⟨star, w, w', hstar, hw, htype, hw', rfl⟩ := h
  rcases hstar with rfl | rfl
  · obtain ⟨c, t, ht, -, hc⟩ := htype.exists_cons
    refine ⟨[], [], w', .inl rfl, rfl, htype, hw', ?_⟩
    rw [List.nil_append, ht, List.cons_append, skipGap_gap hw hc]
    rfl
  · have hstar : isSpace '*' = false := by decide
    refine ⟨['*'], w, w', .inr rfl, hw, htype, hw', ?_⟩
    exact skipGap_gap (w := []) rfl hstar

lemma readPlain?_eq_some : readPlain? s = some (type, rest) ↔ PlainReceiver type s rest := by
  have hword : isWord ')' = false := by decide
  unfold readPlain?
  simp only [Option.bind_eq_some_iff, Option.map_eq_some_iff]
  constructor
  · rintro ⟨⟨type', s'⟩, hread, rest', hshape, e⟩
    cases e
    obtain ⟨w', s'', hw', rfl, hs''⟩ := (readShape?_gap_text opensCode_close).1 hshape
    cases hs''
    obtain ⟨htype, hs⟩ := readWord?_eq_some hread
    obtain ⟨star, hstar, e⟩ : ∃ star, (star = [] ∨ star = ['*']) ∧ s = star ++ (Text.strip? "*" s).getD s := by
      cases e : Text.strip? "*" s with
      | none => exact ⟨[], .inl rfl, rfl⟩
      | some u => exact ⟨['*'], .inr rfl, Text.strip?_eq_some_iff.1 e⟩
    obtain ⟨w, hw, e'⟩ := exists_gap ((Text.strip? "*" s).getD s)
    exact ⟨star, w, w', hstar, hw, htype, hw', by rw [e, e', hs]; rfl⟩
  · rintro ⟨star, w, w', hstar, hw, htype, hw', rfl⟩
    have hstrip : (Text.strip? "*" (star ++ (w ++ (type ++ (w' ++ ')' :: rest))))).getD
        (star ++ (w ++ (type ++ (w' ++ ')' :: rest)))) = w ++ (type ++ (w' ++ ')' :: rest)) := by
      rcases hstar with rfl | rfl
      · obtain ⟨c, t, ht, hc, -⟩ := htype.exists_cons
        obtain ⟨d, t', ht', hd⟩ : ∃ d t', w ++ (type ++ (w' ++ ')' :: rest)) = d :: t' ∧ d ≠ '*' := by
          rcases w with _ | ⟨d, w⟩
          · refine ⟨c, t ++ (w' ++ ')' :: rest), by rw [ht]; rfl, ?_⟩
            rintro rfl
            exact absurd hc (by decide)
          · refine ⟨d, _, rfl, ?_⟩
            rintro rfl
            exact absurd (List.all_eq_true.1 hw _ List.mem_cons_self) (by decide)
        rw [List.nil_append, ht']
        simp [Text.strip?, Ne.symm hd]
      · exact congrArg (fun o => Option.getD o _) Text.strip?_append
    obtain ⟨c, t, ht, -, hc⟩ := htype.exists_cons
    have hskip : Detection.skipGap (w ++ (type ++ (w' ++ ')' :: rest))) = type ++ (w' ++ ')' :: rest) := by
      rw [ht, List.cons_append, skipGap_gap hw hc]
    obtain ⟨d, u, hd, hnot⟩ := exists_cons_not_isWord (s := rest) hw' hword
    refine ⟨(type, w' ++ ')' :: rest), ?_, rest, (readShape?_gap_text opensCode_close).2 ⟨w', rest, hw', rfl, rfl⟩, rfl⟩
    rw [hstrip, hskip, hd, readWord?_append htype hnot]

/-- White space behind the type of a receiver does not make the type a name. -/
lemma not_named (htype : IsWordText type) (hw : w.all isSpace) {p : Text × Text}
    (h : ((readWord? (type ++ (w ++ ')' :: rest))).bind fun p => (skipSpace? p.2).bind readPlain?) = some p) : False := by
  have hparen : isSpace ')' = false := by decide
  have hword : isWord ')' = false := by decide
  obtain ⟨d, u, hd, hnot⟩ := exists_cons_not_isWord (s := rest) hw hword
  rw [hd, readWord?_append htype hnot, Option.bind_some, ← hd] at h
  obtain ⟨s', hs', hplain⟩ := Option.bind_eq_some_iff.1 h
  have hs : s' = ')' :: rest := by
    rcases w with _ | ⟨e, w⟩
    · simp [skipSpace?, hparen] at hs'
    · have he : isSpace e := List.all_eq_true.1 hw e List.mem_cons_self
      rw [List.cons_append, skipSpace?, if_pos he, Option.some.injEq] at hs'
      rw [← hs', skipGap_gap (by simpa [he] using hw) hparen]
  obtain ⟨star, w₁, w₂, hstar, hw₁, htype', -, e⟩ := readPlain?_eq_some.1 (show readPlain? s' = some (p.1, p.2) from hplain)
  obtain ⟨c, t, ht, hc, -⟩ := htype'.exists_cons
  rw [hs] at e
  rcases hstar with rfl | rfl
  · rcases w₁ with _ | ⟨f, w₁⟩
    · rw [ht] at e
      rw [← (List.cons.inj e).1] at hc
      exact absurd hc (by decide)
    · have hf : isSpace f := List.all_eq_true.1 hw₁ f List.mem_cons_self
      rw [← (List.cons.inj e).1] at hf
      exact absurd hf (by decide)
  · exact absurd (List.cons.inj e).1 (by decide)

lemma readReceiver?_eq_some (hs : ∀ c ∈ s.head?, isSpace c = false) :
    readReceiver? s = some (type, rest) ↔ ReceiverHead type s rest := by
  rw [readReceiver?_eq]
  constructor
  · intro h
    cases e : (readWord? s).bind fun p => (skipSpace? p.2).bind readPlain? with
    | none =>
      rw [e] at h
      exact .inl (readPlain?_eq_some.1 h)
    | some p =>
      rw [e] at h
      cases h
      obtain ⟨⟨name, s₁⟩, hname, e⟩ := Option.bind_eq_some_iff.1 e
      obtain ⟨s₂, hspace, hplain⟩ := Option.bind_eq_some_iff.1 e
      obtain ⟨hword, rfl⟩ := readWord?_eq_some hname
      rcases s₁ with _ | ⟨c, s₁⟩
      · cases hspace
      · simp only [skipSpace?] at hspace
        split at hspace
        · next hc =>
          obtain ⟨w, hw, e'⟩ := exists_gap s₁
          refine .inr ⟨name, c :: w, s₂, hword, List.cons_ne_nil _ _, by simp [hc, hw], ?_, readPlain?_eq_some.1 hplain⟩
          rw [e', Option.some.inj hspace]
          rfl
        · cases hspace
  · rintro (h | ⟨name, w, s', hname, hne, hw, rfl, h⟩)
    · obtain ⟨star, w, w', hstar, hw, htype, hw', e⟩ := h
      rcases hstar with rfl | rfl
      · obtain rfl : w = [] := by
          rcases w with _ | ⟨d, w⟩
          · rfl
          · have hd := hs d (by rw [e]; rfl)
            rw [List.all_eq_true.1 hw d List.mem_cons_self] at hd
            cases hd
        rw [List.nil_append, List.nil_append] at e
        cases e' : (readWord? s).bind fun p => (skipSpace? p.2).bind readPlain? with
        | none => exact readPlain?_eq_some.2 ⟨[], [], w', .inl rfl, rfl, htype, hw', e⟩
        | some p =>
          rw [e] at e'
          exact (not_named htype hw' e').elim
      · have hnone : readWord? s = none := by
          have hstar : isWord '*' = false := by decide
          rw [e]
          simp [readWord?, hstar]
        rw [hnone]
        exact readPlain?_eq_some.2 ⟨['*'], w, w', .inr rfl, hw, htype, hw', e⟩
    · obtain ⟨d, w, rfl⟩ := List.exists_cons_of_ne_nil hne
      have hd : isSpace d := List.all_eq_true.1 hw d List.mem_cons_self
      have hskip : skipGap (w ++ s') = skipGap s' := skipGap_append_of_all (by simpa [hd] using hw)
      rw [List.cons_append, readWord?_append hname (not_isWord_of_isSpace hd), Option.bind_some, skipSpace?, if_pos hd,
        Option.bind_some, hskip, readPlain?_eq_some.2 h.skipGap]
      rfl

lemma ReceiverHead.skipGap (h : ReceiverHead type s rest) : ReceiverHead type (skipGap s) rest := by
  rcases h with h | ⟨name, w, s', hname, hne, hw, rfl, h⟩
  · exact .inl h.skipGap
  · obtain ⟨c, t, rfl, -, hc⟩ := hname.exists_cons
    refine .inr ⟨c :: t, w, s', hname, hne, hw, ?_, h⟩
    exact skipGap_gap (w := []) rfl hc

lemma head?_skipGap : ∀ c ∈ (skipGap s).head?, isSpace c = false := by
  intro c hc
  have h := List.head?_dropWhile_not isSpace s
  rw [← skipGap, Option.mem_def.1 hc] at h
  simpa using h

/-- **What the head of a method is read from.** -/
theorem readMethodHead?_eq_some : readMethodHead? fresh s = some (type, rest) ↔ MethodHead type s rest := by
  unfold readMethodHead?
  simp only [Option.bind_eq_bind, Option.bind_eq_some_iff]
  constructor
  · rintro ⟨s₁, h₁, ⟨type', s₂⟩, h₂, s₃, h₃, e⟩
    cases e
    obtain ⟨s₄, hs₄, hopen⟩ := Option.bind_eq_some_iff.1 h₁
    obtain ⟨w₀, s₅, hw₀, rfl, hgap⟩ := (readShape?_gap_text opensCode_open).1 hopen
    obtain ⟨w₁, hw₁, hs₅⟩ := exists_gap s₅
    obtain rfl : skipGap s₅ = s₁ := Option.some.inj hgap
    obtain ⟨w₂, s₆, hw₂, hs₆, hparen⟩ := (readShape?_gap_text opensCode_validate).1 h₃
    obtain ⟨w₃, s₇, hw₃, rfl, hclose⟩ := (readShape?_gap_text opensCode_open).1 hparen
    obtain ⟨w₄, s₈, hw₄, rfl, hend⟩ := (readShape?_gap_text opensCode_close).1 hclose
    cases hend
    refine ⟨w₀, w₁, skipGap s₅, s₂, w₂, w₃, w₄, hw₀, hw₁, (readReceiver?_eq_some head?_skipGap).1 h₂, hw₂, hw₃, hw₄, ?_, hs₆⟩
    rw [Text.strip?_eq_some_iff.1 hs₄, ← hs₅]
    rfl
  · rintro ⟨w₀, w₁, r, r', w₂, w₃, w₄, hw₀, hw₁, hr, hw₂, hw₃, hw₄, rfl, rfl⟩
    refine ⟨skipGap r, ?_, (type, _), (readReceiver?_eq_some head?_skipGap).2 hr.skipGap, rest, ?_, rfl⟩
    · refine Option.bind_eq_some_iff.2 ⟨_, Text.strip?_append, ?_⟩
      exact (readShape?_gap_text opensCode_open).2 ⟨w₀, w₁ ++ r, hw₀, rfl, congrArg some (skipGap_append_of_all hw₁)⟩
    · refine (readShape?_gap_text opensCode_validate).2 ⟨w₂, _, hw₂, rfl, ?_⟩
      refine (readShape?_gap_text opensCode_open).2 ⟨w₃, w₄ ++ ')' :: rest, hw₃, rfl, ?_⟩
      exact (readShape?_gap_text opensCode_close).2 ⟨w₄, rest, hw₄, rfl, rfl⟩

/-! ### Heads do not overlap -/

/-- The beginning of a head. -/
def methodShape : List Piece := [.text "func", .gap, .text "("]

lemma MethodHead.readShape? (h : MethodHead type s rest) : ∃ t, Detection.readShape? methodShape s = some t := by
  obtain ⟨w₀, w₁, r, r', w₂, w₃, w₄, hw₀, -, -, -, -, -, rfl, -⟩ := h
  refine ⟨w₁ ++ r, Option.bind_eq_some_iff.2 ⟨_, Text.strip?_append, ?_⟩⟩
  exact (readShape?_gap_text opensCode_open).2 ⟨w₀, w₁ ++ r, hw₀, rfl, rfl⟩

/-- No head begins in a word that is followed by something else than parameters. -/
lemma fitsNowhere_word (ha : a.all isWord) (hb : ∀ c ∈ b.head?, isWord c = false) (hgap : (skipGap b).head? ≠ some '(') :
    FitsNowhere methodShape a b := by
  intro u v hv hne
  by_contra hsome
  obtain ⟨t, ht⟩ := Option.ne_none_iff_exists'.1 hsome
  obtain ⟨x, hx, hopen⟩ := Option.bind_eq_some_iff.1 ht
  obtain ⟨w, y, hw, rfl, -⟩ := (readShape?_gap_text opensCode_open).1 hopen
  have hword : v.all isWord := by
    rw [hv, List.all_append, Bool.and_eq_true] at ha
    exact ha.2
  rcases List.append_eq_append_iff.1 (Text.strip?_eq_some_iff.1 hx) with ⟨z, hz, hb'⟩ | ⟨z, rfl, hz⟩
  · -- the word ends in the keyword, or with it
    rcases z with _ | ⟨c, z⟩
    · refine hgap ?_
      rw [List.nil_append] at hb'
      rw [hb', opensCode_open.skipGap_gap hw]
      rfl
    · have hc := hb c (by rw [hb']; rfl)
      have hmem : c ∈ "func".toList := by rw [hz]; simp
      revert hc
      have hkeyword : ∀ d ∈ "func".toList, isWord d := List.all_eq_true.1 (by decide)
      rw [hkeyword c hmem]
      exact Bool.noConfusion
  · -- the word goes on behind the keyword
    rcases z with _ | ⟨c, z⟩
    · refine hgap ?_
      rw [List.nil_append] at hz
      rw [← hz, opensCode_open.skipGap_gap hw]
      rfl
    · have hc : isWord c := List.all_eq_true.1 hword c (by simp)
      rcases w with _ | ⟨d, w⟩
      · obtain rfl : '(' = c := (List.cons.inj hz).1
        exact absurd hc (by decide)
      · obtain rfl : d = c := (List.cons.inj hz).1
        rw [not_isWord_of_isSpace (List.all_eq_true.1 hw d List.mem_cons_self)] at hc
        cases hc

lemma fitsNowhere_gap (hw : w.all isSpace) : FitsNowhere methodShape w b := by
  refine fitsNowhere_of_not_mem fun hmem => ?_
  exact absurd (List.all_eq_true.1 hw _ hmem) (by decide)

lemma PlainReceiver.fitsNowhere (h : PlainReceiver type s rest) : ∃ k, s = k ++ rest ∧ FitsNowhere methodShape k rest := by
  obtain ⟨star, w, w', hstar, hw, htype, hw', rfl⟩ := h
  refine ⟨star ++ (w ++ (type ++ (w' ++ [')']))), by simp, ?_⟩
  have hparen : isWord ')' = false := by decide
  obtain ⟨d, t, hd, hnot⟩ := exists_cons_not_isWord (s := rest) hw' hparen
  refine .append (fitsNowhere_of_not_mem ?_) (.append (fitsNowhere_gap hw) (.append (fitsNowhere_word htype.2 ?_ ?_)
    (.append (fitsNowhere_gap hw') (fitsNowhere_of_not_mem (by decide)))))
  · rcases hstar with rfl | rfl <;> decide
  · intro c hc
    rw [List.append_assoc, List.singleton_append, hd] at hc
    cases hc
    exact hnot
  · rw [List.append_assoc, List.singleton_append, skipGap_gap hw' (by decide)]
    simp

lemma PlainReceiver.head? (h : PlainReceiver type s rest) : (Detection.skipGap s).head? ≠ some '(' := by
  obtain ⟨star, w, w', hstar, hw, htype, -, e⟩ := h.skipGap
  intro hopen
  obtain ⟨c, t, ht, hc, -⟩ := htype.exists_cons
  rcases hstar with rfl | rfl
  · rcases w with _ | ⟨d, w⟩
    · rw [e, ht] at hopen
      obtain rfl : c = '(' := Option.some.inj hopen
      exact absurd hc (by decide)
    · rw [e] at hopen
      obtain rfl : d = '(' := Option.some.inj hopen
      exact absurd (head?_skipGap '(' (by rw [e]; rfl)) (by simp [List.all_eq_true.1 hw])
  · rw [e] at hopen
    exact absurd (Option.some.inj hopen) (by decide)

lemma ReceiverHead.fitsNowhere (h : ReceiverHead type s rest) : ∃ k, s = k ++ rest ∧ FitsNowhere methodShape k rest := by
  rcases h with h | ⟨name, w, s', hname, hne, hw, rfl, h⟩
  · exact h.fitsNowhere
  · obtain ⟨k, rfl, hk⟩ := h.fitsNowhere
    obtain ⟨d, w, rfl⟩ := List.exists_cons_of_ne_nil hne
    refine ⟨name ++ (d :: w ++ k), by simp, .append (fitsNowhere_word hname.2 ?_ ?_) (.append (fitsNowhere_gap hw) hk)⟩
    · intro c hc
      obtain rfl : d = c := Option.some.inj hc
      exact not_isWord_of_isSpace (List.all_eq_true.1 hw d List.mem_cons_self)
    · rw [List.append_assoc, skipGap_append_of_all hw]
      exact h.head?

/-- No head begins inside of another one. -/
lemma MethodHead.fitsNowhere (h : MethodHead type s rest) : ∃ k, s = 'f' :: (k ++ rest) ∧ FitsNowhere methodShape k rest := by
  obtain ⟨w₀, w₁, r, r', w₂, w₃, w₄, hw₀, hw₁, hr, hw₂, hw₃, hw₄, rfl, rfl⟩ := h
  obtain ⟨k, rfl, hk⟩ := hr.fitsNowhere
  refine ⟨"unc".toList ++ (w₀ ++ (['('] ++ (w₁ ++ (k ++ (w₂ ++ ("Validate".toList ++ (w₃ ++ (['('] ++ (w₄ ++ [')']))))))))),
    by simp, ?_⟩
  refine .append (fitsNowhere_of_not_mem (by decide)) (.append (fitsNowhere_gap hw₀) (.append (fitsNowhere_of_not_mem (by decide))
    (.append (fitsNowhere_gap hw₁) (.append (by simpa using hk) (.append (fitsNowhere_gap hw₂)
      (.append (fitsNowhere_of_not_mem (by decide)) (.append (fitsNowhere_gap hw₃) (.append (fitsNowhere_of_not_mem (by decide))
        (.append (fitsNowhere_gap hw₄) (fitsNowhere_of_not_mem (by decide)))))))))))

lemma consumes_readMethodHead? : Consumes readMethodHead? := by
  intro fresh s type rest h
  obtain ⟨w₀, w₁, r, r', w₂, w₃, w₄, -, -, hr, -, -, -, rfl, rfl⟩ := readMethodHead?_eq_some.1 h
  obtain ⟨k, rfl, -⟩ := hr.fitsNowhere
  exact ⟨"func".toList ++ (w₀ ++ '(' :: (w₁ ++ (k ++ (w₂ ++ ("Validate".toList ++ (w₃ ++ '(' :: w₄)))))), ')', by simp, by decide⟩

lemma readsApart_readMethodHead? : ReadsApart readMethodHead? := by
  intro fresh u v type rest h hu hv
  obtain ⟨k, hk, hnowhere⟩ := (readMethodHead?_eq_some.1 h).fitsNowhere
  obtain ⟨c, u, rfl⟩ := List.exists_cons_of_ne_nil hu
  have hsplit : k = u ++ v := by
    rw [List.cons_append, List.cons.injEq, ← List.append_assoc] at hk
    exact (List.append_cancel_right hk.2).symm
  by_contra hsome
  obtain ⟨⟨type', rest'⟩, hread⟩ := Option.ne_none_iff_exists'.1 hsome
  obtain ⟨t, ht⟩ := (readMethodHead?_eq_some.1 hread).readShape?
  rw [hnowhere u v hsplit hv] at ht
  cases ht

/-- Whether the head of a `Validate` method of a type stands in a text, comments apart. -/
def HasMethodHead (type source : Text) : Prop := ∃ u v rest, commentsBlanked source = u ++ v ∧ MethodHead type v rest

/-- **The types that have a method** are those of the heads in the text. -/
theorem mem_methodTypes_iff : type ∈ methodTypes s ↔ HasMethodHead type s := by
  rw [methodTypes, Text.mem_toSet, mem_findAll_iff consumes_readMethodHead? readsApart_readMethodHead?]
  simp only [readMethodHead?_eq_some]
  rfl

end RuleWeaver.Detection
