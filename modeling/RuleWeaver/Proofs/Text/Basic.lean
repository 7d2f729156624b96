import RuleWeaver.Text.Words
import Mathlib.Tactic.Lemma
import Mathlib.Tactic.Common
import Mathlib.Data.Char
import Mathlib.Data.List.Basic
import Mathlib.Data.List.TakeWhile

/-!
# Parts and sets of texts

Parts of a text are found again at their offsets, and sets of texts hold what was put into them.
-/

namespace RuleWeaver.Text

variable {a b c x y : Text} {xs ys : List Text} {p : Char → Bool} {d : Char}

lemma takeWhile_append_cons (hd : p d = false) : (a ++ d :: b).takeWhile p = a.takeWhile p := by
  induction a with
  | nil => simp [hd]
  | cons e a ih => simp [List.takeWhile_cons, ih]

lemma dropWhile_append_cons (hd : p d = false) : (a ++ d :: b).dropWhile p = a.dropWhile p ++ d :: b := by
  induction a with
  | nil => simp [hd]
  | cons e a ih =>
    simp only [List.cons_append, List.dropWhile_cons, ih]
    split <;> rfl

@[simp] lemma dropBytes_width_append : dropBytes a.width (a ++ b) = b := by
  rw [dropBytes, splitAt?_width_append]
  rfl

@[simp] lemma slice_width_append : slice (a ++ (b ++ c)) a.width (a.width + b.width) = b := by
  rw [slice, dropBytes_width_append, Nat.add_sub_cancel_left, splitAt?_width_append]
  rfl

/-! ### Parts of a text -/

lemma strip?_eq_some_iff : strip? a b = some c ↔ b = a ++ c := by
  induction a generalizing b with
  | nil => simp [strip?, eq_comm]
  | cons d a ih =>
    cases b with
    | nil => simp [strip?]
    | cons e b =>
      simp only [strip?, List.cons_append, List.cons.injEq]
      split
      · next h => simp [ih, h]
      · next h => simp [Ne.symm h]

@[simp] lemma strip?_append : strip? a (a ++ b) = some b := strip?_eq_some_iff.2 rfl

lemma cut?_eq_some (h : cut? x y = some (a, b)) : y = a ++ (x ++ b) := by
  induction y generalizing a with
  | nil =>
    rw [cut?] at h
    split at h
    · next hp =>
      cases h
      simp [hp]
    · cases h
  | cons d y ih =>
    rw [cut?] at h
    split at h
    · next rest e =>
      cases h
      rw [strip?_eq_some_iff.1 e]
      rfl
    · obtain ⟨⟨a', b'⟩, h', e⟩ := Option.map_eq_some_iff.1 h
      cases e
      rw [ih h']
      rfl

/-! ### The order of texts -/

lemma le_total : le a b ∨ le b a := by
  induction a generalizing b with
  | nil => exact .inl rfl
  | cons c a ih =>
    rcases b with _ | ⟨d, b⟩
    · exact .inr rfl
    · by_cases h : c = d
      · subst h
        simpa [le] using ih
      · rw [le, le, if_neg h, if_neg (Ne.symm h), decide_eq_true_eq, decide_eq_true_eq]
        exact lt_or_gt_of_ne h

lemma le_antisymm (h : le a b) (h' : le b a) : a = b := by
  induction a generalizing b with
  | nil =>
    rcases b with _ | ⟨d, b⟩
    · rfl
    · cases h'
  | cons c a ih =>
    rcases b with _ | ⟨d, b⟩
    · cases h
    · by_cases hcd : c = d
      · subst hcd
        simp only [le, if_true] at h h'
        rw [ih h h']
      · simp only [le, hcd, Ne.symm hcd, if_false, decide_eq_true_eq] at h h'
        exact absurd h' (lt_asymm h)

lemma le_trans (h : le a b) (h' : le b c) : le a c := by
  induction a generalizing b c with
  | nil => rfl
  | cons d a ih =>
    rcases b with _ | ⟨e, b⟩
    · cases h
    rcases c with _ | ⟨f, c⟩
    · cases h'
    simp only [le] at h h' ⊢
    split at h <;> split at h'
    · next hde hef =>
      rw [if_pos (hde.trans hef)]
      exact ih h h'
    · next hde hef =>
      subst hde
      rw [if_neg hef]
      exact h'
    · next hde hef =>
      subst hef
      rw [if_neg hde]
      exact h
    · have hlt := lt_trans (of_decide_eq_true h) (of_decide_eq_true h')
      rw [if_neg (ne_of_lt hlt), decide_eq_true hlt]

@[simp] lemma mem_insert : x ∈ insert y xs ↔ x = y ∨ x ∈ xs := by
  induction xs with
  | nil => simp [insert]
  | cons z xs ih =>
    simp only [insert]
    split
    · next h => simp [h]
    split
    · simp
    · simp only [List.mem_cons, ih]
      exact or_left_comm

lemma mem_foldl_insert : x ∈ xs.foldl (fun set y => insert y set) ys ↔ x ∈ xs ∨ x ∈ ys := by
  induction xs generalizing ys with
  | nil => simp
  | cons y xs ih =>
    rw [List.foldl_cons, ih, mem_insert, List.mem_cons]
    exact or_left_comm.trans or_assoc.symm

@[simp] lemma mem_toSet : x ∈ toSet xs ↔ x ∈ xs := by
  rw [toSet, mem_foldl_insert]
  simp

/-- Whether texts stand in ascending order and none stands twice. -/
def IsAscending (xs : List Text) : Prop := xs.Pairwise fun a b => le a b ∧ a ≠ b

lemma IsAscending.insert (h : IsAscending xs) : IsAscending (insert x xs) := by
  induction xs with
  | nil => exact List.pairwise_singleton _ x
  | cons y xs ih =>
    obtain ⟨hy, hxs⟩ := List.pairwise_cons.1 h
    rw [Text.insert]
    split
    · exact h
    next hne =>
    split
    · next hle =>
      refine List.pairwise_cons.2 ⟨fun z hz => ?_, h⟩
      rcases List.mem_cons.1 hz with rfl | hz
      · exact ⟨hle, hne⟩
      · refine ⟨le_trans hle (hy z hz).1, ?_⟩
        rintro rfl
        exact hne (le_antisymm hle (hy x hz).1)
    · next hle =>
      refine List.pairwise_cons.2 ⟨fun z hz => ?_, ih hxs⟩
      rcases mem_insert.1 hz with rfl | hz
      · exact ⟨le_total.resolve_left hle, Ne.symm hne⟩
      · exact hy z hz

/-- An ascending list is determined by what is in it. -/
lemma IsAscending.ext (h : IsAscending xs) (h' : IsAscending ys) (hmem : ∀ x, x ∈ xs ↔ x ∈ ys) : xs = ys := by
  have hperm : xs.Perm ys := (List.perm_ext_iff_of_nodup (h.imp And.right) (h'.imp And.right)).2 hmem
  exact hperm.eq_of_pairwise (fun a b _ _ hab hba => le_antisymm hab.1 hba.1) h h'

/-- Sets are in ascending order. -/
lemma isAscending_toSet : IsAscending (toSet xs) := by
  have key : ∀ ys, IsAscending ys → IsAscending (xs.foldl (fun set x => insert x set) ys) := by
    induction xs with
    | nil => exact fun ys h => h
    | cons x xs ih => exact fun ys h => ih _ h.insert
  exact key [] List.Pairwise.nil

/-! ### White space -/

open Unicode (isSpace)

lemma trimEnd_append_of_all (hb : b.all isSpace) : trimEnd (a ++ b) = trimEnd a := by
  have hall : ∀ c ∈ b.reverse, isSpace c := fun c hc => List.all_eq_true.1 hb c (List.mem_reverse.1 hc)
  rw [trimEnd, List.reverse_append, List.dropWhile_append_of_pos hall, trimEnd]

lemma trimEnd_eq_self (h : ∀ c ∈ a, isSpace c = false) : trimEnd a = a := by
  rw [trimEnd, List.dropWhile_eq_self_iff.2 fun hlen => ?_, List.reverse_reverse]
  have := h _ (List.mem_reverse.1 (List.getElem_mem hlen))
  simpa using this

/-- The white space at the end of a text. -/
def spaceAtEnd (s : Text) : Text := (s.reverse.takeWhile isSpace).reverse

lemma trimEnd_append_spaceAtEnd : trimEnd a ++ spaceAtEnd a = a := by
  rw [trimEnd, spaceAtEnd, ← List.reverse_append, List.takeWhile_append_dropWhile, List.reverse_reverse]

lemma all_spaceAtEnd : (spaceAtEnd a).all isSpace := by
  rw [spaceAtEnd, List.all_reverse]
  exact List.all_takeWhile

lemma mem_spaceAtEnd (hb : b.all isSpace) (hd : d ∈ b) : d ∈ spaceAtEnd (a ++ b) := by
  have hall : ∀ e ∈ b.reverse, isSpace e := fun e he => List.all_eq_true.1 hb e (List.mem_reverse.1 he)
  rw [spaceAtEnd, List.mem_reverse, List.reverse_append, List.takeWhile_append_of_pos hall]
  exact List.mem_append_left _ (List.mem_reverse.2 hd)

/-- White space is in front of a trimmed text and behind it. -/
lemma exists_trim (s : Text) : ∃ a b, s = a ++ (trim s ++ b) ∧ a.all isSpace ∧ b.all isSpace := by
  refine ⟨s.takeWhile isSpace, spaceAtEnd (trimStart s), ?_, List.all_takeWhile, all_spaceAtEnd⟩
  rw [trim, trimEnd_append_spaceAtEnd, trimStart, List.takeWhile_append_dropWhile]

end RuleWeaver.Text
