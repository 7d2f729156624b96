import RuleWeaver.Proofs.Detection.Methods

/-!
# White space that changes

Recognisers take one white space for another: where a gap between two pieces of code becomes a different gap, they read the
same (`Respaced.readMethodHead?`, `Respaced.readFunction?`).  What is found in a text is therefore found when white space in
front of a line break comes or goes (`BreaksAlike.finds`).
-/

namespace RuleWeaver.Detection

open Unicode (isSpace isWord)

variable {α : Type} {r : Recogniser α} {fresh : Bool} {p s t u v w w' rest name type : Text} {shape : List Piece} {x : α}

/-- Whether a text is white space, of which there is some. -/
def IsGap (w : Text) : Prop := w ≠ [] ∧ w.all isSpace

lemma IsGap.exists_cons (h : IsGap w) : ∃ c v, w = c :: v ∧ isSpace c ∧ v.all isSpace := by
  obtain ⟨hne, hall⟩ := h
  obtain ⟨c, v, rfl⟩ := List.exists_cons_of_ne_nil hne
  rw [List.all_cons, Bool.and_eq_true] at hall
  exact ⟨c, v, rfl, hall⟩

/-- Whether two texts are the same but for one gap. -/
inductive Respaced : Text → Text → Prop
  | refl (s : Text) : Respaced s s
  | gap (a b : Text) {w w' : Text} (hw : IsGap w) (hw' : IsGap w') : Respaced (a ++ (w ++ b)) (a ++ (w' ++ b))

/-- Whether the texts of a shape hold no white space. -/
def isSolid (shape : List Piece) : Bool :=
  shape.all fun
    | .text p => p.all (!isSpace ·)
    | _ => true

namespace Respaced

/-! ### Reading pieces -/

lemma strip? (h : Respaced s t) (hp : p.all (!isSpace ·)) (hs : Text.strip? p s = some rest) :
    ∃ rest', Text.strip? p t = some rest' ∧ Respaced rest rest' := by
  cases h with
  | refl => exact ⟨rest, hs, .refl _⟩
  | gap a b hw hw' =>
    rcases List.append_eq_append_iff.1 (Text.strip?_eq_some_iff.1 hs) with ⟨q, rfl, hq⟩ | ⟨q, rfl, rfl⟩
    · -- the piece ends where the gap begins
      obtain ⟨c, v, rfl, hc, -⟩ := hw.exists_cons
      cases q with
      | nil =>
        rw [List.nil_append] at hq
        rw [List.append_nil, ← hq]
        exact ⟨_, Text.strip?_append, .gap [] b hw hw'⟩
      | cons d q =>
        rw [List.cons_append, List.cons_append, List.cons.injEq] at hq
        have hd := List.all_eq_true.1 hp d (by simp)
        rw [← hq.1, hc] at hd
        cases hd
    · exact ⟨q ++ (_ ++ b), by rw [List.append_assoc, Text.strip?_append], .gap q b hw hw'⟩

lemma skipGap (h : Respaced s t) : Respaced (Detection.skipGap s) (Detection.skipGap t) := by
  cases h with
  | refl => exact .refl _
  | gap a b hw hw' =>
    by_cases ha : a.all isSpace
    · rw [skipGap_append_of_all ha, skipGap_append_of_all ha, skipGap_append_of_all hw.2, skipGap_append_of_all hw'.2]
      exact .refl _
    · rw [Bool.not_eq_true] at ha
      rw [skipGap_append ha, skipGap_append ha]
      exact .gap _ b hw hw'

/-- Where one of the texts opens with white space, so does the other. -/
lemma exists_space (h : Respaced s t) (hs : ∃ c ∈ s.head?, isSpace c) : ∃ c ∈ t.head?, isSpace c := by
  cases h with
  | refl => exact hs
  | gap a b hw hw' =>
    cases a with
    | nil =>
      obtain ⟨c, v, rfl, hc, -⟩ := hw'.exists_cons
      exact ⟨c, rfl, hc⟩
    | cons c a => exact hs

lemma skipSpace?_eq_some : Detection.skipSpace? s = some rest ↔ (∃ c ∈ s.head?, isSpace c) ∧ rest = Detection.skipGap s := by
  cases s with
  | nil => simp [Detection.skipSpace?]
  | cons c s =>
    by_cases hc : isSpace c
    · have hskip : Detection.skipGap (c :: s) = Detection.skipGap s := List.dropWhile_cons_of_pos hc
      rw [Detection.skipSpace?, if_pos hc, hskip, Option.some.injEq]
      exact ⟨fun h => ⟨⟨c, rfl, hc⟩, h.symm⟩, fun h => h.2.symm⟩
    · rw [Detection.skipSpace?, if_neg hc]
      constructor
      · intro h
        cases h
      · rintro ⟨⟨d, hd, hspace⟩, -⟩
        cases hd
        exact absurd hspace hc

lemma skipSpace? (h : Respaced s t) (hs : Detection.skipSpace? s = some rest) :
    ∃ rest', Detection.skipSpace? t = some rest' ∧ Respaced rest rest' := by
  obtain ⟨hhead, rfl⟩ := skipSpace?_eq_some.1 hs
  exact ⟨_, skipSpace?_eq_some.2 ⟨h.exists_space hhead, rfl⟩, h.skipGap⟩

/-- A run of characters that are no white space ends where a gap begins. -/
lemma run (h : Respaced s t) {q : Char → Bool} (hq : ∀ c, isSpace c → q c = false) :
    s.takeWhile q = t.takeWhile q ∧ Respaced (s.dropWhile q) (t.dropWhile q) := by
  cases h with
  | refl => exact ⟨rfl, .refl _⟩
  | gap a b hw hw' =>
    have hrun : ∀ {v}, IsGap v → (a ++ (v ++ b)).takeWhile q = a.takeWhile q ∧
        (a ++ (v ++ b)).dropWhile q = a.dropWhile q ++ (v ++ b) := by
      rintro v hv
      obtain ⟨c, v, rfl, hc, -⟩ := hv.exists_cons
      exact ⟨Text.takeWhile_append_cons (hq c hc), Text.dropWhile_append_cons (hq c hc)⟩
    rw [(hrun hw).1, (hrun hw').1, (hrun hw).2, (hrun hw').2]
    exact ⟨rfl, .gap _ b hw hw'⟩

lemma readWord? (h : Respaced s t) (hs : Detection.readWord? s = some (name, rest)) :
    ∃ rest', Detection.readWord? t = some (name, rest') ∧ Respaced rest rest' := by
  obtain ⟨htake, hdrop⟩ := h.run fun _ hc => not_isWord_of_isSpace hc
  unfold Detection.readWord? at hs ⊢
  rw [← htake]
  dsimp only at hs ⊢
  split at hs
  · cases hs
  · next hne =>
    cases hs
    exact ⟨_, if_neg hne, hdrop⟩

lemma readName? {more : Char → Bool} (h : Respaced s t) (hmore : ∀ c, isSpace c → more c = false)
    (hs : Detection.readName? more s = some (name, rest)) :
    ∃ rest', Detection.readName? more t = some (name, rest') ∧ Respaced rest rest' := by
  cases h with
  | refl => exact ⟨rest, hs, .refl _⟩
  | gap a b hw hw' =>
    cases a with
    | nil =>
      obtain ⟨c, v, rfl, hc, -⟩ := hw.exists_cons
      simp only [List.nil_append, List.cons_append, Detection.readName?] at hs
      split at hs
      · next hstart =>
        rw [not_isSpace_of_start hstart] at hc
        cases hc
      · cases hs
    | cons c a =>
      obtain ⟨htake, hdrop⟩ := (Respaced.gap a b hw hw').run hmore
      simp only [List.cons_append, Detection.readName?] at hs ⊢
      split at hs
      · next hstart =>
        cases hs
        rw [if_pos hstart, htake]
        exact ⟨_, rfl, hdrop⟩
      · cases hs

lemma readShape? (h : Respaced s t) (hshape : isSolid shape) (hs : Detection.readShape? shape s = some rest) :
    ∃ rest', Detection.readShape? shape t = some rest' ∧ Respaced rest rest' := by
  induction shape generalizing s t with
  | nil =>
    cases hs
    exact ⟨t, rfl, h⟩
  | cons piece shape ih =>
    rw [isSolid, List.all_cons, Bool.and_eq_true] at hshape
    cases piece with
    | text p =>
      obtain ⟨s', hs', hs⟩ := Option.bind_eq_some_iff.1 hs
      obtain ⟨t', ht', h'⟩ := h.strip? hshape.1 hs'
      obtain ⟨rest', hrest, hr⟩ := ih h' hshape.2 hs
      exact ⟨rest', Option.bind_eq_some_iff.2 ⟨t', ht', hrest⟩, hr⟩
    | gap => exact ih h.skipGap hshape.2 hs
    | space =>
      obtain ⟨s', hs', hs⟩ := Option.bind_eq_some_iff.1 hs
      obtain ⟨t', ht', h'⟩ := h.skipSpace? hs'
      obtain ⟨rest', hrest, hr⟩ := ih h' hshape.2 hs
      exact ⟨rest', Option.bind_eq_some_iff.2 ⟨t', ht', hrest⟩, hr⟩

/-! ### Reading heads -/

lemma symm (h : Respaced s t) : Respaced t s := by
  cases h with
  | refl => exact .refl _
  | gap a b hw hw' => exact .gap a b hw' hw

lemma getD_star (h : Respaced s t) : Respaced ((Text.strip? "*" s).getD s) ((Text.strip? "*" t).getD t) := by
  have hstar : ("*" : Text).all (!isSpace ·) := by decide +kernel
  cases hs : Text.strip? "*" s with
  | some rest =>
    obtain ⟨rest', hrest, hr⟩ := h.strip? hstar hs
    rw [hrest]
    exact hr
  | none =>
    cases ht : Text.strip? "*" t with
    | some rest =>
      obtain ⟨rest', hrest, -⟩ := h.symm.strip? hstar ht
      rw [hs] at hrest
      cases hrest
    | none => exact h

lemma readPlain? (h : Respaced s t) (hs : Detection.readPlain? s = some (type, rest)) :
    ∃ rest', Detection.readPlain? t = some (type, rest') ∧ Respaced rest rest' := by
  obtain ⟨⟨word, s'⟩, hword, hs⟩ := Option.bind_eq_some_iff.1 hs
  obtain ⟨u, hu, he⟩ := Option.map_eq_some_iff.1 hs
  cases he
  obtain ⟨t', ht', h'⟩ := h.getD_star.skipGap.readWord? hword
  obtain ⟨rest', hrest, hr⟩ := h'.readShape? (by decide +kernel) hu
  exact ⟨rest', Option.bind_eq_some_iff.2 ⟨_, ht', Option.map_eq_some_iff.2 ⟨rest', hrest, rfl⟩⟩, hr⟩

lemma readReceiver? (h : Respaced s t) (hs : Detection.readReceiver? s = some (type, rest)) :
    ∃ rest', Detection.readReceiver? t = some (type, rest') ∧ Respaced rest rest' := by
  have hnamed : ∀ {s t : Text} {type rest : Text}, Respaced s t →
      ((Detection.readWord? s).bind fun p => (Detection.skipSpace? p.2).bind Detection.readPlain?) = some (type, rest) →
      ∃ rest', ((Detection.readWord? t).bind fun p => (Detection.skipSpace? p.2).bind Detection.readPlain?) = some (type, rest') ∧
        Respaced rest rest' := by
    intro s t type rest h hs
    obtain ⟨⟨word, s₁⟩, hword, hs⟩ := Option.bind_eq_some_iff.1 hs
    obtain ⟨s₂, hspace, hs⟩ := Option.bind_eq_some_iff.1 hs
    obtain ⟨t₁, ht₁, h₁⟩ := h.readWord? hword
    obtain ⟨t₂, ht₂, h₂⟩ := h₁.skipSpace? hspace
    obtain ⟨rest', hrest, hr⟩ := h₂.readPlain? hs
    exact ⟨rest', Option.bind_eq_some_iff.2 ⟨_, ht₁, Option.bind_eq_some_iff.2 ⟨t₂, ht₂, hrest⟩⟩, hr⟩
  rw [readReceiver?_eq] at hs ⊢
  cases hread : (Detection.readWord? s).bind fun p => (Detection.skipSpace? p.2).bind Detection.readPlain? with
  | some p =>
    rw [hread, Option.orElse_some] at hs
    cases hs
    obtain ⟨rest', hrest, hr⟩ := hnamed h hread
    exact ⟨rest', by rw [hrest, Option.orElse_some], hr⟩
  | none =>
    rw [hread, Option.orElse_none] at hs
    obtain ⟨rest', hrest, hr⟩ := h.readPlain? hs
    refine ⟨rest', ?_, hr⟩
    cases hother : (Detection.readWord? t).bind fun p => (Detection.skipSpace? p.2).bind Detection.readPlain? with
    | none => rw [Option.orElse_none, hrest]
    | some p =>
      obtain ⟨_, hnone, -⟩ := hnamed h.symm hother
      rw [hread] at hnone
      cases hnone

theorem readMethodHead? (h : Respaced s t) (hs : Detection.readMethodHead? fresh s = some (type, rest)) :
    ∃ rest', Detection.readMethodHead? fresh t = some (type, rest') := by
  obtain ⟨s₁, hs₁, hs⟩ := Option.bind_eq_some_iff.1 hs
  obtain ⟨⟨type', s₂⟩, hs₂, hs⟩ := Option.bind_eq_some_iff.1 hs
  obtain ⟨s₃, hs₃, he⟩ := Option.bind_eq_some_iff.1 hs
  cases he
  obtain ⟨t₁, ht₁, h₁⟩ := h.readShape? (by decide +kernel) hs₁
  obtain ⟨t₂, ht₂, h₂⟩ := h₁.readReceiver? hs₂
  obtain ⟨t₃, ht₃, -⟩ := h₂.readShape? (by decide +kernel) hs₃
  exact ⟨t₃, Option.bind_eq_some_iff.2 ⟨t₁, ht₁, Option.bind_eq_some_iff.2 ⟨_, ht₂, Option.bind_eq_some_iff.2 ⟨t₃, ht₃, rfl⟩⟩⟩⟩

theorem readFunction? (h : Respaced s t) (hs : Detection.readFunction? fresh s = some (name, rest)) :
    ∃ rest', Detection.readFunction? fresh t = some (name, rest') := by
  rw [readFunction?_eq] at hs ⊢
  split at hs
  · next hfresh =>
    rw [if_pos hfresh]
    obtain ⟨s₂, hs₂, hs⟩ := Option.bind_eq_some_iff.1 hs
    obtain ⟨s₁, hs₁, hs₂⟩ := Option.bind_eq_some_iff.1 hs₂
    obtain ⟨⟨name', s₃⟩, hs₃, hs⟩ := Option.bind_eq_some_iff.1 hs
    obtain ⟨t₁, ht₁, h₁⟩ := h.strip? (by decide +kernel) hs₁
    obtain ⟨t₂, ht₂, h₂⟩ := h₁.skipSpace? hs₂
    obtain ⟨t₃, ht₃, h₃⟩ := h₂.readName? (fun _ hc => not_isWord_of_isSpace hc) hs₃
    have hbracket : ∀ d, isSpace d = false → ∀ y, Detection.skipGap s₃ = d :: y → ∃ z, Detection.skipGap t₃ = d :: z := by
      intro d hd y hy
      have hstrip : Text.strip? [d] (Detection.skipGap s₃) = some y := by
        rw [hy]
        exact Text.strip?_eq_some_iff.2 rfl
      obtain ⟨z, hz, -⟩ := h₃.skipGap.strip? (by simpa using hd) hstrip
      exact ⟨z, Text.strip?_eq_some_iff.1 hz⟩
    have hread : ∃ z, readNamed? t₂ = some (name, z) := by
      unfold readNamed?
      rw [ht₃, Option.bind_some]
      dsimp only at hs ⊢
      split at hs
      · next hy =>
        cases hs
        obtain ⟨z, hz⟩ := hbracket '(' (by decide +kernel) _ hy
        rw [hz]
        exact ⟨z, rfl⟩
      · next hy =>
        cases hs
        obtain ⟨z, hz⟩ := hbracket '[' (by decide +kernel) _ hy
        rw [hz]
        exact ⟨z, rfl⟩
      · cases hs
    obtain ⟨z, hz⟩ := hread
    exact ⟨z, Option.bind_eq_some_iff.2 ⟨t₂, Option.bind_eq_some_iff.2 ⟨t₁, ht₁, ht₂⟩, hz⟩⟩
  · cases hs

end Respaced

/-! ### Line breaks -/

/-- Whether two texts are the same but for white space in front of a line break. -/
inductive BreaksAlike : Text → Text → Prop
  | step (a b : Text) {v v' : Text} (hv : v.all isSpace) (hv' : v'.all isSpace) :
      BreaksAlike (a ++ (v ++ '\n' :: b)) (a ++ (v' ++ '\n' :: b))

lemma BreaksAlike.symm (h : BreaksAlike s t) : BreaksAlike t s := by
  obtain ⟨a, b, hv, hv'⟩ := h
  exact .step a b hv' hv

/-- Whether a recogniser reads something somewhere in a text. -/
def Finds (r : Recogniser α) (x : α) (s : Text) : Prop := ∃ u v rest, s = u ++ v ∧ r (freshBehind true u) v = some (x, rest)

/-- Whether a recogniser reads code from its first character on, takes one white space for another and does not look at what
is behind. -/
structure ReadsCode (r : Recogniser α) : Prop where
  opensCode : ∀ {fresh s x rest}, r fresh s = some (x, rest) → OpensCode s
  respaced : ∀ {fresh s t x rest}, Respaced s t → r fresh s = some (x, rest) → ∃ rest', r fresh t = some (x, rest')
  append : ∀ {fresh s x rest}, r fresh s = some (x, rest) → ∀ y, r fresh (s ++ y) = some (x, rest ++ y)
  fresh : ∀ {s x rest}, r false s = some (x, rest) → r true s = some (x, rest)

lemma PlainReceiver.append (h : PlainReceiver type s rest) (y : Text) : PlainReceiver type (s ++ y) (rest ++ y) := by
  obtain ⟨star, w, w', hstar, hw, htype, hw', rfl⟩ := h
  exact ⟨star, w, w', hstar, hw, htype, hw', by simp⟩

lemma ReceiverHead.append (h : ReceiverHead type s rest) (y : Text) : ReceiverHead type (s ++ y) (rest ++ y) := by
  rcases h with h | ⟨name, w, s', hname, hne, hw, rfl, h⟩
  · exact .inl (h.append y)
  · exact .inr ⟨name, w, s' ++ y, hname, hne, hw, by simp, h.append y⟩

lemma readsCode_readMethodHead? : ReadsCode readMethodHead? where
  opensCode h := by
    obtain ⟨k, rfl, -⟩ := (readMethodHead?_eq_some.1 h).fitsNowhere
    exact ⟨'f', _, rfl, by decide +kernel⟩
  respaced := Respaced.readMethodHead?
  append h y := by
    obtain ⟨w₀, w₁, q, q', w₂, w₃, w₄, h₀, h₁, hreceiver, h₂, h₃, h₄, rfl, rfl⟩ := readMethodHead?_eq_some.1 h
    refine readMethodHead?_eq_some.2 ⟨w₀, w₁, q ++ y, _, w₂, w₃, w₄, h₀, h₁, hreceiver.append y, h₂, h₃, h₄, by simp, by simp⟩
  fresh h := h

lemma readsCode_readFunction? : ReadsCode readFunction? where
  opensCode {fresh s x rest} h := by
    obtain ⟨c, t, rfl⟩ := List.exists_cons_of_ne_nil (l := s) (by rintro rfl; cases (readFunction?_eq_some.1 h).2.head?)
    obtain rfl : c = 'f' := Option.some.inj (readFunction?_eq_some.1 h).2.head?
    exact ⟨'f', t, rfl, by decide +kernel⟩
  respaced := Respaced.readFunction?
  append h y := by
    obtain ⟨hfresh, w, w', d, hne, hw, hname, hw', hd, rfl⟩ := readFunction?_eq_some.1 h
    exact readFunction?_eq_some.2 ⟨hfresh, w, w', d, hne, hw, hname, hw', hd, by simp⟩
  fresh h := (nomatch (readFunction?_eq_some.1 h).1)

/-- **White space in front of line breaks hides nothing.**  What is found in a text is found in the other one. -/
theorem BreaksAlike.finds (hr : ReadsCode r) (h : BreaksAlike s t) (hs : Finds r x s) : Finds r x t := by
  obtain ⟨a, b, hv, hv'⟩ := h
  rename_i v v'
  obtain ⟨u, y, rest, he, hread⟩ := hs
  obtain ⟨c, z, rfl, hc⟩ := hr.opensCode hread
  have hgap : ∀ {w : Text}, w.all isSpace → IsGap (w ++ ['\n']) := fun hw =>
    ⟨by simp, by rw [List.all_append, hw]; decide +kernel⟩
  rw [← List.singleton_append, ← List.append_assoc v] at he
  rw [← List.singleton_append, ← List.append_assoc v']
  rcases List.append_eq_append_iff.1 he with ⟨q, rfl, hq⟩ | ⟨q, rfl, hq⟩
  · -- what is read begins behind the white space, for it begins with code
    have hnot : c ∉ v ++ ['\n'] := fun hmem => by
      have hspace := List.all_eq_true.1 (hgap hv).2 c hmem
      rw [hc] at hspace
      cases hspace
    obtain ⟨p, rfl⟩ := exists_append_of_not_mem hnot hq
    rw [← List.append_assoc] at hq
    obtain rfl := List.append_cancel_right hq
    exact ⟨a ++ ((v' ++ ['\n']) ++ p), c :: z, rest, by simp, by simpa [freshBehind_append] using hread⟩
  · refine ⟨u, q ++ ((v' ++ ['\n']) ++ b), ?_⟩
    rw [hq] at hread
    obtain ⟨rest', hrest⟩ := hr.respaced (.gap q b (hgap hv) (hgap hv')) hread
    exact ⟨rest', by simp, hrest⟩

lemma Finds.append (hr : ReadsCode r) (h : Finds r x s) (y : Text) : Finds r x (s ++ y) := by
  obtain ⟨u, v, rest, rfl, hread⟩ := h
  exact ⟨u, v ++ y, rest ++ y, List.append_assoc .., hr.append hread y⟩

/-- White space at the beginning hides nothing either. -/
lemma Finds.of_gap (hr : ReadsCode r) (h : Finds r x (w ++ s)) (hw : w.all isSpace) : Finds r x s := by
  obtain ⟨u, v, rest, he, hread⟩ := h
  obtain ⟨c, z, rfl, hc⟩ := hr.opensCode hread
  have hnot : c ∉ w := fun hmem => by
    have hspace := List.all_eq_true.1 hw c hmem
    rw [hc] at hspace
    cases hspace
  obtain ⟨p, rfl⟩ := exists_append_of_not_mem hnot he
  rw [← List.append_assoc] at he
  obtain rfl := List.append_cancel_right he
  refine ⟨p, c :: z, rest, rfl, ?_⟩
  rw [freshBehind_append] at hread
  cases hp : p.getLast? with
  | some d =>
    simpa [freshBehind, hp] using hread
  | none =>
    rw [List.getLast?_eq_none_iff] at hp
    subst hp
    rw [freshBehind_nil] at hread ⊢
    cases hfresh : freshBehind true w with
    | true => rwa [hfresh] at hread
    | false => exact hr.fresh (by rwa [hfresh] at hread)

theorem mem_functions_iff_finds : name ∈ functions s ↔ Finds readFunction? name (Source.commentsBlanked s) := by
  rw [functions, Text.mem_toSet, mem_findAll_iff consumes_readFunction? readsApart_readFunction?]
  rfl

theorem mem_methodTypes_iff_finds : type ∈ methodTypes s ↔ Finds readMethodHead? type (Source.commentsBlanked s) := by
  rw [methodTypes, Text.mem_toSet, mem_findAll_iff consumes_readMethodHead? readsApart_readMethodHead?]
  rfl

end RuleWeaver.Detection
