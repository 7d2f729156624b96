import RuleWeaver.Detection.Shape
import RuleWeaver.Proofs.Text.Basic
import Mathlib.Data.List.TakeWhile

/-!
# Scanning text in parts

What a recogniser finds in a text that is put together from parts.  When no reading goes past the beginning of a part,
what is found is what is found in front of it and in it (`findAll_append`).  A recogniser whose readings do not overlap
finds them all (`mem_findAll_iff`).
-/

namespace RuleWeaver.Text

variable {lead s rest : Text} {c : Char}

/-- A part of which a text has no character is not cut in two by the beginning of that text. -/
lemma strip?_append_cons (hc : c ∉ lead) : strip? lead (s ++ c :: rest) = (strip? lead s).map (· ++ c :: rest) := by
  induction lead generalizing s with
  | nil => simp [strip?]
  | cons d lead ih =>
    rw [List.mem_cons, not_or] at hc
    cases s with
    | nil => simp [strip?, Ne.symm hc.1]
    | cons e s =>
      simp only [strip?, List.cons_append]
      split
      · exact ih hc.2
      · rfl

end RuleWeaver.Text

namespace RuleWeaver.Detection

open Unicode (isSpace isWord)

variable {α : Type} {r : Recogniser α} {fresh : Bool} {a b s t rest : Text} {c : Char} {x : α}

/-! ### Character classes -/

lemma toNat_lt_of_isAlphanum (h : c.isAlphanum) : c.toNat < 0x80 := by
  have h₁ : 'Z'.val.toNat = 90 := rfl
  have h₂ : 'z'.val.toNat = 122 := rfl
  have h₃ : '9'.val.toNat = 57 := rfl
  unfold Char.isAlphanum Char.isAlpha Char.isUpper Char.isLower Char.isDigit at h
  simp only [Bool.or_eq_true, Bool.and_eq_true, decide_eq_true_eq, ge_iff_le, UInt32.le_iff_toNat_le] at h
  change c.val.toNat < 0x80
  omega

lemma isWord_of_isAlphanum (h : c.isAlphanum) : isWord c := by
  rw [isWord, if_pos (toNat_lt_of_isAlphanum h), h, Bool.true_or]

lemma covers_cons_cons {m n k : Nat} {changes : List Nat} :
    Unicode.covers (m :: n :: changes) k ↔ m ≤ k ∧ (k < n ∨ Unicode.covers changes k) := by
  simp only [Unicode.covers, List.takeWhile_cons, decide_eq_true_eq]
  by_cases hm : m ≤ k
  · by_cases hn : n ≤ k
    · simp only [hm, hn, if_true, List.length_cons, true_and]
      omega
    · simp [hm, hn, Nat.lt_of_not_le hn]
  · simp [hm]

lemma isSpace_toNat (h : isSpace c) :
    c.toNat ∈ [9, 10, 11, 12, 13, 32, 133, 160, 5760, 8192, 8193, 8194, 8195, 8196, 8197, 8198, 8199, 8200, 8201, 8202,
      8232, 8233, 8239, 8287, 12288] := by
  have hnil : ∀ k, Unicode.covers [] k = false := fun _ => rfl
  simp only [isSpace, Unicode.spaces, covers_cons_cons, hnil, Bool.false_eq_true, or_false] at h
  simp only [List.mem_cons, List.not_mem_nil, or_false]
  omega

lemma not_isWord_of_isSpace (h : isSpace c) : isWord c = false := by
  have hmem := isSpace_toNat h
  have hc : c = Char.ofNat c.toNat := (Char.ofNat_toNat c).symm
  generalize c.toNat = n at hmem hc
  subst hc
  simp only [List.mem_cons, List.not_mem_nil, or_false] at hmem
  rcases hmem with rfl | rfl | rfl | rfl | rfl | rfl | rfl | rfl | rfl | rfl | rfl | rfl | rfl | rfl | rfl | rfl | rfl |
    rfl | rfl | rfl | rfl | rfl | rfl | rfl | rfl <;> decide +kernel

lemma skipGap_append_of_all (h : a.all isSpace) : skipGap (a ++ b) = skipGap b :=
  List.dropWhile_append_of_pos (List.all_eq_true.1 h)

lemma skipGap_append_cons (hc : isSpace c = false) : skipGap (a ++ c :: b) = skipGap a ++ c :: b :=
  Text.dropWhile_append_cons hc

lemma skipGap_append (ha : a.all isSpace = false) : skipGap (a ++ b) = skipGap a ++ b := by
  obtain ⟨c, hc, hs⟩ := List.all_eq_false.1 ha
  obtain ⟨u, v, rfl⟩ := List.append_of_mem hc
  have hs : isSpace c = false := by simpa using hs
  rw [List.append_assoc, List.cons_append, skipGap_append_cons hs, skipGap_append_cons hs, List.append_assoc,
    List.cons_append]

lemma skipGap_of_all (h : a.all isSpace) : skipGap a = [] := List.dropWhile_eq_nil_iff.2 (List.all_eq_true.1 h)

lemma skipGap_ne_nil (h : a.all isSpace = false) : skipGap a ≠ [] := by
  intro hnil
  rw [List.all_eq_true.2 (List.dropWhile_eq_nil_iff.1 hnil)] at h
  cases h

/-! ### Gaps -/

lemma skipGap_gap (hw : w.all isSpace) (hc : isSpace c = false) : skipGap (w ++ c :: s) = c :: s := by
  rw [skipGap_append_of_all hw, skipGap, List.dropWhile_cons_of_neg (by simp [hc])]

lemma exists_gap (s : Text) : ∃ w, w.all isSpace ∧ s = w ++ skipGap s :=
  ⟨s.takeWhile isSpace, List.all_takeWhile, List.takeWhile_append_dropWhile.symm⟩

/-- Whether a text begins with something else than white space. -/
def OpensCode (s : Text) : Prop := ∃ c t, s = c :: t ∧ isSpace c = false

lemma OpensCode.skipGap_gap (h : OpensCode s) (hw : w.all isSpace) : skipGap (w ++ (s ++ t)) = s ++ t := by
  obtain ⟨c, u, rfl, hc⟩ := h
  exact Detection.skipGap_gap hw hc

lemma exists_cons_not_isWord (hw : w.all isSpace) (hc : isWord c = false) : ∃ d t, w ++ c :: s = d :: t ∧ isWord d = false := by
  rcases w with _ | ⟨d, w⟩
  · exact ⟨c, s, rfl, hc⟩
  · exact ⟨d, w ++ c :: s, rfl, not_isWord_of_isSpace (List.all_eq_true.1 hw d List.mem_cons_self)⟩

/-! ### Everything a recogniser finds -/

/-- Whether a line begins behind a text, at whose own beginning `fresh` tells that. -/
def freshBehind (fresh : Bool) (a : Text) : Bool := a.getLast?.elim fresh (· = '\n')

@[simp] lemma freshBehind_nil : freshBehind fresh [] = fresh := rfl

@[simp] lemma freshBehind_cons : freshBehind fresh (c :: a) = freshBehind (c = '\n') a := by
  rcases List.eq_nil_or_concat a with rfl | ⟨a, d, rfl⟩
  · rfl
  · rw [freshBehind, freshBehind, List.concat_eq_append, List.getLast?_concat, ← List.cons_append, List.getLast?_concat]
    rfl

@[simp] lemma freshBehind_append : freshBehind fresh (a ++ b) = freshBehind (freshBehind fresh a) b := by
  induction a generalizing fresh with
  | nil => rfl
  | cons c a ih => simp [ih]

@[simp] lemma findAll_nil : findAll r fresh [] = [] := by rw [findAll]

lemma findAll_of_none (h : r fresh (c :: t) = none) : findAll r fresh (c :: t) = findAll r (c = '\n') t := by
  rw [findAll]
  split <;> simp_all

lemma findAll_of_some (h : r fresh (c :: t) = some (x, rest)) (hle : rest.length ≤ t.length) :
    findAll r fresh (c :: t) = x :: findAll r false rest := by
  rw [findAll]
  split <;> simp_all

lemma mem_findAll (h : x ∈ findAll r fresh s) : ∃ f u rest, r f u = some (x, rest) := by
  induction hn : s.length using Nat.strongRecOn generalizing s fresh with
  | ind n ih =>
    subst hn
    rcases s with _ | ⟨c, t⟩
    · rw [findAll_nil] at h
      cases h
    · rw [findAll] at h
      split at h
      · next y rest e =>
        split at h
        · next hle =>
          rcases List.mem_cons.1 h with rfl | h
          · exact ⟨_, _, _, e⟩
          · exact ih rest.length (Nat.lt_succ_of_le hle) h rfl
        · rcases List.mem_cons.1 h with rfl | h
          · exact ⟨_, _, _, e⟩
          · exact ih t.length (Nat.lt_succ_self _) h rfl
      · exact ih t.length (Nat.lt_succ_self _) h rfl

/-- Whether a reading takes characters, the last of which is no line break. -/
def Consumes (r : Recogniser α) : Prop :=
  ∀ ⦃fresh s x rest⦄, r fresh s = some (x, rest) → ∃ w c, s = w ++ c :: rest ∧ c ≠ '\n'

/-- Whether readings that begin in front of a text end in front of it. -/
def EndsBefore (r : Recogniser α) (b : Text) : Prop :=
  ∀ ⦃fresh a⦄, a ≠ [] → r fresh (a ++ b) = (r fresh a).map fun (x, rest) => (x, rest ++ b)

/-- **What is found in two parts.** -/
theorem findAll_append (hr : Consumes r) (hb : EndsBefore r b) :
    findAll r fresh (a ++ b) = findAll r fresh a ++ findAll r (freshBehind fresh a) b := by
  induction h : a.length using Nat.strongRecOn generalizing a fresh with
  | ind n ih =>
    subst h
    rcases a with _ | ⟨c, t⟩
    · simp
    have hread : r fresh (c :: (t ++ b)) = _ := hb (List.cons_ne_nil c t)
    cases e : r fresh (c :: t) with
    | none =>
      rw [e, Option.map_none] at hread
      rw [List.cons_append, findAll_of_none hread, findAll_of_none e, ih t.length (Nat.lt_succ_self _) rfl,
        freshBehind_cons]
    | some p =>
      obtain ⟨x, rest⟩ := p
      rw [e, Option.map_some] at hread
      obtain ⟨w, d, hw, hd⟩ := hr e
      have hlen : rest.length < (c :: t).length := by
        rw [hw, List.length_append, List.length_cons]
        omega
      have hfresh : freshBehind fresh (c :: t) = freshBehind false rest := by
        rw [hw]
        simp [hd]
      have hle : (rest ++ b).length ≤ (t ++ b).length := by
        rw [List.length_cons] at hlen
        simp only [List.length_append]
        omega
      rw [List.cons_append, findAll_of_some hread hle, findAll_of_some e (Nat.le_of_lt_succ hlen), ih _ hlen rfl, hfresh,
        List.cons_append]

/-- Where nothing is read in front of a text, all is found in it. -/
lemma findAll_append_of_none (h : ∀ u v, a = u ++ v → v ≠ [] → r (freshBehind fresh u) (v ++ b) = none) :
    findAll r fresh (a ++ b) = findAll r (freshBehind fresh a) b := by
  induction a generalizing fresh with
  | nil => rfl
  | cons c a ih =>
    have hnone : r fresh (c :: (a ++ b)) = none := h [] (c :: a) rfl (List.cons_ne_nil _ _)
    rw [List.cons_append, findAll_of_none hnone, freshBehind_cons]
    refine ih fun u v e hv => ?_
    have := h (c :: u) v (congrArg (c :: ·) e) hv
    rwa [freshBehind_cons] at this

/-- Whether nothing is read from inside of a reading. -/
def ReadsApart (r : Recogniser α) : Prop :=
  ∀ ⦃fresh u v x rest⦄, r fresh (u ++ (v ++ rest)) = some (x, rest) → u ≠ [] → v ≠ [] →
    r (freshBehind fresh u) (v ++ rest) = none

/-- **All readings are found** by a recogniser whose readings do not overlap. -/
theorem mem_findAll_iff (hr : Consumes r) (ha : ReadsApart r) :
    x ∈ findAll r fresh s ↔ ∃ u v rest, s = u ++ v ∧ r (freshBehind fresh u) v = some (x, rest) := by
  induction h : s.length using Nat.strongRecOn generalizing s fresh with
  | ind n ih =>
    subst h
    rcases s with _ | ⟨c, t⟩
    · simp only [findAll_nil, List.not_mem_nil, false_iff, not_exists, not_and]
      rintro u v rest huv hread
      obtain ⟨rfl, rfl⟩ := List.append_eq_nil_iff.1 huv.symm
      obtain ⟨w, d, hw, -⟩ := hr hread
      exact absurd hw (by simp)
    cases e : r fresh (c :: t) with
    | none =>
      rw [findAll_of_none e, ih t.length (Nat.lt_succ_self _) rfl]
      constructor
      · rintro ⟨u, v, rest, rfl, hread⟩
        exact ⟨c :: u, v, rest, rfl, by rwa [freshBehind_cons]⟩
      · rintro ⟨_ | ⟨d, u⟩, v, rest, huv, hread⟩
        · obtain rfl : c :: t = v := huv
          rw [freshBehind_nil, e] at hread
          cases hread
        · obtain ⟨rfl, rfl⟩ := List.cons.inj huv
          exact ⟨u, v, rest, rfl, by rwa [freshBehind_cons] at hread⟩
    | some p =>
      obtain ⟨y, rest⟩ := p
      obtain ⟨w, d, hw, hd⟩ := hr e
      have hlen : rest.length < (c :: t).length := by
        rw [hw, List.length_append, List.length_cons]
        omega
      have hfresh : freshBehind fresh (w ++ [d]) = false := by
        simp [hd]
      rw [findAll_of_some e (Nat.le_of_lt_succ hlen), List.mem_cons, ih _ hlen rfl]
      constructor
      · rintro (rfl | ⟨u, v, rest', rfl, hread⟩)
        · exact ⟨[], c :: t, rest, rfl, e⟩
        · refine ⟨w ++ [d] ++ u, v, rest', by rw [hw]; simp, ?_⟩
          rwa [freshBehind_append, hfresh]
      · rintro ⟨u, v, rest', huv, hread⟩
        rcases List.append_eq_append_iff.1 (show (w ++ [d]) ++ rest = u ++ v by rw [← huv, hw]; simp) with
          ⟨a, rfl, rfl⟩ | ⟨a, ha', rfl⟩
        · refine .inr ⟨a, v, rest', rfl, ?_⟩
          rwa [freshBehind_append, hfresh] at hread
        · -- a reading from inside, or the one at the beginning
          rcases u with _ | ⟨b, u⟩
          · rw [List.nil_append] at huv
            rw [freshBehind_nil, ← huv, e] at hread
            cases hread
            exact .inl rfl
          · rcases a with _ | ⟨a, as⟩
            · rw [List.append_nil] at ha'
              refine .inr ⟨[], rest, rest', rfl, ?_⟩
              rwa [← ha', hfresh, List.nil_append] at hread
            · rw [huv] at e
              rw [ha e (List.cons_ne_nil _ _) (List.cons_ne_nil _ _)] at hread
              cases hread

/-! ### Where a shape fits first -/

section Shape

variable {shape : List Piece}

/-- Whether a shape fits nowhere in a text that another one follows. -/
def FitsNowhere (shape : List Piece) (a b : Text) : Prop :=
  ∀ u v, a = u ++ v → v ≠ [] → readShape? shape (v ++ b) = none

lemma fitsNowhere_nil : FitsNowhere shape [] b := by
  intro u v h hv
  exact absurd (List.append_eq_nil_iff.1 h.symm).2 hv

lemma FitsNowhere.append {d : Text} (ha : FitsNowhere shape a (b ++ d)) (hb : FitsNowhere shape b d) :
    FitsNowhere shape (a ++ b) d := by
  intro u v h hv
  rcases List.append_eq_append_iff.1 h with ⟨w, rfl, rfl⟩ | ⟨w, rfl, rfl⟩
  · exact hb w v rfl hv
  · rcases w with _ | ⟨c, w⟩
    · exact hb [] _ rfl hv
    · rw [List.append_assoc]
      exact ha u (c :: w) rfl (List.cons_ne_nil _ _)

lemma endOfShape?_append {n : Nat} (h : FitsNowhere shape a b) :
    endOfShape? shape n (a ++ b) = endOfShape? shape (n + a.width) b := by
  induction a generalizing n with
  | nil => rfl
  | cons c a ih =>
    have hnone : readShape? shape (c :: (a ++ b)) = none := h [] (c :: a) rfl (List.cons_ne_nil _ _)
    rw [List.cons_append, endOfShape?, hnone]
    have hrest : FitsNowhere shape a b := fun u v e hv => h (c :: u) v (congrArg (c :: ·) e) hv
    simp only [ih hrest, Text.width_cons, Nat.add_assoc]

lemma endOfShape?_eq_none_iff {n : Nat} : endOfShape? shape n a = none ↔ FitsNowhere shape a [] := by
  constructor
  · intro h
    induction a generalizing n with
    | nil => exact fitsNowhere_nil
    | cons c a ih =>
      rw [endOfShape?] at h
      split at h
      · cases h
      · next e =>
        rintro (_ | ⟨d, u⟩) v hv hne
        · obtain rfl : c :: a = v := hv
          rw [List.append_nil, e]
        · obtain ⟨-, rfl⟩ := List.cons.inj hv
          exact ih h u v rfl hne
  · intro h
    have := endOfShape?_append (n := n) h
    rw [List.append_nil] at this
    rw [this, endOfShape?]

lemma readShape?_gap_text {p : Text} {ps : List Piece} (hp : OpensCode p) :
    readShape? (.gap :: .text p :: ps) s = some rest ↔
      ∃ w s', w.all isSpace ∧ s = w ++ (p ++ s') ∧ readShape? ps s' = some rest := by
  simp only [readShape?, Option.bind_eq_some_iff, Text.strip?_eq_some_iff]
  constructor
  · rintro ⟨s', hs, h⟩
    obtain ⟨w, hw, e⟩ := exists_gap s
    exact ⟨w, s', hw, by rw [← hs, ← e], h⟩
  · rintro ⟨w, s', hw, rfl, h⟩
    exact ⟨s', hp.skipGap_gap hw, h⟩

/-- A shape begins with a character that its first piece begins with. -/
lemma fitsNowhere_of_not_mem {p : Text} (hc : c ∉ a) : FitsNowhere (.text (c :: p) :: shape) a b := by
  rintro u (_ | ⟨d, v⟩) h hv
  · exact absurd rfl hv
  · have hd : c ≠ d := by
      rintro rfl
      exact hc (by rw [h]; simp)
    simp [readShape?, Text.strip?, hd]

lemma readShape?_append_pieces {ps qs : List Piece} : readShape? (ps ++ qs) s = (readShape? ps s).bind (readShape? qs) := by
  induction ps generalizing s with
  | nil => rfl
  | cons piece ps ih =>
    cases piece with
    | text t =>
      rw [List.cons_append, readShape?, readShape?]
      cases Text.strip? t s with
      | none => rfl
      | some u => exact ih
    | gap =>
      rw [List.cons_append, readShape?, readShape?, ih]
    | space =>
      rw [List.cons_append, readShape?, readShape?]
      cases skipSpace? s with
      | none => rfl
      | some u => exact ih

/-- The text of a shape stands where the shape fits. -/
lemma mem_of_readShape? {p : Text} (hp : .text p ∈ shape) (hc : c ∈ p) (h : readShape? shape s = some rest) : c ∈ s := by
  induction shape generalizing s with
  | nil => cases hp
  | cons piece ps ih =>
    cases piece with
    | text t =>
      obtain ⟨u, hu, hrest⟩ := Option.bind_eq_some_iff.1 h
      rw [Text.strip?_eq_some_iff.1 hu, List.mem_append]
      rcases List.mem_cons.1 hp with hp | hp
      · cases hp
        exact .inl hc
      · exact .inr (ih hp hrest)
    | gap =>
      have hp : .text p ∈ ps := by simpa using hp
      exact (List.dropWhile_sublist _).mem (ih hp h)
    | space =>
      have hp : .text p ∈ ps := by simpa using hp
      obtain ⟨u, hu, hrest⟩ := Option.bind_eq_some_iff.1 h
      rcases s with _ | ⟨d, s⟩
      · cases hu
      · have hu : u = skipGap s := by
          simp only [skipSpace?] at hu
          split at hu
          · exact (Option.some.inj hu).symm
          · cases hu
        have hmem := ih hp hrest
        rw [hu] at hmem
        exact List.mem_cons_of_mem _ ((List.dropWhile_sublist _).mem hmem)

/-- A character that a shape does not have ends every text that it fits. -/
lemma readShape?_append_cons (hc : isSpace c = false) (hp : ∀ p, .text p ∈ shape → c ∉ p) :
    readShape? shape (a ++ c :: b) = (readShape? shape a).map (· ++ c :: b) := by
  induction shape generalizing a with
  | nil => rfl
  | cons piece ps ih =>
    have ih : ∀ a, readShape? ps (a ++ c :: b) = (readShape? ps a).map (· ++ c :: b) :=
      fun a => ih fun p h => hp p (List.mem_cons_of_mem _ h)
    cases piece with
    | text p =>
      rw [readShape?, readShape?, Text.strip?_append_cons (hp p List.mem_cons_self)]
      cases Text.strip? p a with
      | none => rfl
      | some u => exact ih u
    | gap => rw [readShape?, readShape?, skipGap_append_cons hc, ih]
    | space =>
      rw [readShape?, readShape?]
      rcases a with _ | ⟨d, a⟩
      · simp [skipSpace?, hc]
      · by_cases hd : isSpace d
        · simp only [List.cons_append, skipSpace?, hd, if_true, skipGap_append_cons hc]
          exact ih _
        · simp [skipSpace?, hd]

lemma FitsNowhere.before (hc : isSpace c = false) (hp : ∀ p, .text p ∈ shape → c ∉ p) (h : FitsNowhere shape a []) :
    FitsNowhere shape a (c :: b) := by
  intro u v e hv
  have := h u v e hv
  rw [List.append_nil] at this
  rw [readShape?_append_cons hc hp, this]
  rfl

/-- A shape does not fit where one of its characters is missing. -/
lemma fitsNowhere_of_missing {p : Text} (hp : .text p ∈ shape) (hc : c ∈ p) (ha : c ∉ a) : FitsNowhere shape a [] := by
  intro u v e hv
  by_contra h
  obtain ⟨rest, hrest⟩ := Option.ne_none_iff_exists'.1 h
  rw [List.append_nil] at hrest
  exact ha (by rw [e]; exact List.mem_append_right _ (mem_of_readShape? hp hc hrest))

end Shape

end RuleWeaver.Detection
