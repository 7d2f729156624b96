import RuleWeaver.Proofs.Source.Offsets
import RuleWeaver.Proofs.Text.Splitting
import RuleWeaver.Text.Position
import Mathlib.Data.Prod.Lex
import Mathlib.Data.List.Induction

/-!
# Positions and offsets

Positions are compared line first.  One more character leads to a later position (`lt_next`), so an offset further on has a
later position (`strictMonoOn_position`).  The line counts the line breaks in front of a place, the column the characters
behind the last of them (`behind_eq`); from the two the offset is found again (`offsetOf?_eq_some_iff`).
-/

namespace RuleWeaver

namespace Text

variable {s x : Text} {c : Char}

/-- The width of a text up to the place that has so many line breaks in front of it, and so many characters behind the last
of them; nothing if the text has no such place. -/
def widthTo? : Nat → Nat → Text → Option Nat
  | 0, 0, _ => some 0
  | _, _, [] => none
  | 0, k + 1, c :: s => if c = '\n' then none else (widthTo? 0 k s).map (c.utf8Size + ·)
  | m + 1, k, c :: s => (widthTo? (if c = '\n' then m else m + 1) k s).map (c.utf8Size + ·)

/-- Whether a text has so many line breaks and so many characters behind the last of them. -/
def LeadsTo (m k : Nat) (x : Text) : Prop := x.count '\n' = m ∧ x.lastLine.length = k

lemma leadsTo_zero_iff {k : Nat} : LeadsTo 0 k x ↔ '\n' ∉ x ∧ x.length = k := by
  rw [LeadsTo, List.count_eq_zero]
  refine and_congr_right fun h => ?_
  rw [lastLine_of_not_mem h]

lemma leadsTo_newline_cons {m k : Nat} : LeadsTo (m + 1) k ('\n' :: x) ↔ LeadsTo m k x := by
  have hlast : lastLine ('\n' :: x) = lastLine x := lastLine_append_newline (a := [])
  rw [LeadsTo, LeadsTo, List.count_cons_self, hlast, Nat.add_right_cancel_iff]

lemma leadsTo_cons_of_ne {m k : Nat} (h : c ≠ '\n') : LeadsTo (m + 1) k (c :: x) ↔ LeadsTo (m + 1) k x := by
  rw [LeadsTo, LeadsTo, List.count_cons_of_ne h]
  refine and_congr_right fun hm => ?_
  have hmem : '\n' ∈ x := List.count_pos_iff.1 (by omega)
  rw [lastLine_cons_of_mem hmem]

/-- A place behind a character, in a text that begins with the character. -/
lemma exists_cons_append_iff {P : Text → Prop} {n : Nat} (hnil : ¬ P []) :
    (∃ x y : Text, c :: s = x ++ y ∧ x.width = n ∧ P x) ↔
      ∃ w, (∃ x y : Text, s = x ++ y ∧ x.width = w ∧ P (c :: x)) ∧ c.utf8Size + w = n := by
  constructor
  · rintro ⟨_ | ⟨d, x⟩, y, e, hw, hp⟩
    · exact absurd hp hnil
    · obtain ⟨rfl, rfl⟩ := List.cons.inj e
      exact ⟨width x, ⟨x, y, rfl, rfl, hp⟩, hw⟩
  · rintro ⟨w, ⟨x, y, rfl, rfl, hp⟩, hw⟩
    exact ⟨c :: x, y, rfl, hw, hp⟩

/-- **Places are found** by the line breaks in front of them and the characters behind the last one. -/
theorem widthTo?_eq_some_iff {m k n : Nat} :
    widthTo? m k s = some n ↔ ∃ x y, s = x ++ y ∧ x.width = n ∧ LeadsTo m k x := by
  fun_induction widthTo? m k s generalizing n with
  | case1 s =>
    simp only [leadsTo_zero_iff, List.length_eq_zero_iff, Option.some.injEq]
    constructor
    · rintro rfl
      exact ⟨[], s, rfl, rfl, by simp, rfl⟩
    · rintro ⟨x, y, -, hw, -, rfl⟩
      exact hw
  | case2 m k hne =>
    simp only [reduceCtorEq, false_iff]
    rintro ⟨x, y, e, -, hm, hk⟩
    obtain ⟨rfl, rfl⟩ := List.append_eq_nil_iff.1 e.symm
    exact hne hm.symm hk.symm
  | case3 k s =>
    -- the line of the place ends before it has as many characters
    simp only [reduceCtorEq, false_iff, leadsTo_zero_iff]
    rintro ⟨_ | ⟨d, x⟩, y, e, -, hmem, hk⟩
    · cases hk
    · obtain ⟨rfl, -⟩ := List.cons.inj e
      exact hmem List.mem_cons_self
  | case4 k c s hc ih =>
    -- in the line of the place every character counts
    rw [exists_cons_append_iff (by simp [LeadsTo])]
    simp only [Option.map_eq_some_iff, ih, leadsTo_zero_iff, List.mem_cons, Ne.symm hc, false_or, List.length_cons,
      Nat.succ_eq_add_one, Nat.add_right_cancel_iff]
  | case5 m k c s ih =>
    -- in a line in front of it only the line break does
    rw [exists_cons_append_iff (by simp [LeadsTo])]
    simp only [Option.map_eq_some_iff, ih]
    split
    · next hc => simp only [hc, leadsTo_newline_cons]
    · next hc => simp only [leadsTo_cons_of_ne hc]

end Text

open Text (IsBoundary widthTo? LeadsTo slice)

variable {source s t : Text} {p : Position} {c : Char} {n : Nat}

namespace Position

/-- Line and column as a pair that is compared line first. -/
def key (p : Position) : Nat ×ₗ Nat := toLex (p.line, p.column)

/-- Positions are compared line first. -/
instance : Preorder Position := Preorder.lift key

lemma lt_iff {q : Position} : p < q ↔ p.line < q.line ∨ p.line = q.line ∧ p.column < q.column := Prod.Lex.toLex_lt_toLex

/-- A character leads to a later position. -/
lemma lt_next : p < p.next c := by
  rw [lt_iff, next]
  split
  · exact .inl (Nat.lt_succ_self _)
  · exact .inr ⟨rfl, Nat.lt_succ_self _⟩

/-- So does every text with a character in it. -/
lemma lt_foldl_next (h : t ≠ []) : p < t.foldl next p := by
  induction t generalizing p with
  | nil => exact absurd rfl h
  | cons c t ih =>
    rw [List.foldl_cons]
    by_cases ht : t = []
    · rw [ht]
      exact lt_next
    · exact lt_trans lt_next (ih ht)

lemma behind_lt_behind_append (h : t ≠ []) : behind s < behind (s ++ t) := by
  rw [behind, behind, List.foldl_append]
  exact lt_foldl_next h

/-- **What a position counts.** -/
theorem behind_eq : behind s = ⟨s.count '\n' + 1, s.lastLine.length + 1⟩ := by
  induction s using List.reverseRecOn with
  | nil => rfl
  | append_singleton s c ih =>
    have hstep : behind (s ++ [c]) = (behind s).next c := by rw [behind, List.foldl_append]; rfl
    rw [hstep, ih, next, List.count_append]
    split
    · next hc =>
      subst hc
      rw [Text.lastLine_append_newline, List.count_singleton_self]
      rfl
    · next hc =>
      rw [Text.lastLine_append (by simpa using Ne.symm hc), List.count_singleton]
      simp [hc]

end Position

open Position (behind behind_eq behind_lt_behind_append)

lemma position_width_append : position (s ++ t) s.width = behind s := by
  rw [position, Text.splitAt?_width_append]
  rfl

/-- Offsets further on have later positions. -/
lemma strictMonoOn_position : StrictMonoOn (position source) {n | IsBoundary source n} := by
  rintro a ⟨u, v, rfl, rfl⟩ b hb hab
  obtain ⟨w, y, rfl, rfl⟩ := IsBoundary.cut hb (Nat.le_of_lt hab)
  have hw : w ≠ [] := by
    rintro rfl
    simp at hab
  rw [← Text.width_append, ← List.append_assoc, position_width_append, List.append_assoc, position_width_append]
  exact behind_lt_behind_append hw

/-- The offset of a position: that of its line, and the width of the characters in front of it in the line. -/
def offsetOf? (source : Text) : Position → Option Nat
  | ⟨m + 1, k + 1⟩ => widthTo? m k source
  | _ => none

lemma position_eq_iff {m k : Nat} : IsBoundary source n ∧ position source n = ⟨m + 1, k + 1⟩ ↔
    ∃ x y, source = x ++ y ∧ x.width = n ∧ LeadsTo m k x := by
  constructor
  · rintro ⟨⟨x, y, rfl, rfl⟩, h⟩
    rw [position_width_append, behind_eq, Position.mk.injEq, Nat.add_right_cancel_iff, Nat.add_right_cancel_iff] at h
    exact ⟨x, y, rfl, rfl, h⟩
  · rintro ⟨x, y, rfl, rfl, hm, hk⟩
    refine ⟨⟨x, y, rfl, rfl⟩, ?_⟩
    rw [position_width_append, behind_eq, hm, hk]

/-- **Offsets are found again** from their positions, and nothing else is found. -/
theorem offsetOf?_eq_some_iff : offsetOf? source p = some n ↔ IsBoundary source n ∧ position source n = p := by
  fun_cases offsetOf? source p with
  | case1 m k => rw [position_eq_iff, Text.widthTo?_eq_some_iff]
  | case2 p hp =>
    simp only [reduceCtorEq, false_iff]
    rintro ⟨⟨x, y, rfl, rfl⟩, rfl⟩
    exact hp _ _ (position_width_append.trans behind_eq)

/-- **Positions identify offsets.**  Of two offsets at which a text can be cut, the one further on has the later position.  The
line is one more than the line breaks in front of the offset, the column one more than the characters behind the last of
them, and the offset is the only one that is found from the two. -/
theorem positions_identify_offsets (source : Text) :
    (∀ a b, IsBoundary source a → IsBoundary source b → (position source a < position source b ↔ a < b)) ∧
    (∀ n, IsBoundary source n → position source n =
      ⟨(slice source 0 n).count '\n' + 1, (slice source 0 n).lastLine.length + 1⟩) ∧
    ∀ p n, offsetOf? source p = some n ↔ IsBoundary source n ∧ position source n = p := by
  refine ⟨fun a b ha hb => strictMonoOn_position.lt_iff_lt ha hb, ?_, fun p n => offsetOf?_eq_some_iff⟩
  rintro _ ⟨x, y, rfl, rfl⟩
  have hslice : slice (x ++ y) 0 x.width = x := by simpa using Text.slice_width_append (a := []) (b := x) (c := y)
  rw [position_width_append, behind_eq, hslice]

/-- Letters of two and of three bytes, and an empty line between them. -/
def accentedText : Text := "é\n\nß本"

/-- The end of that text is found from its position, which is later than that of its first line break. -/
theorem accentedText_is_found_again : IsBoundary accentedText 2 ∧ IsBoundary accentedText 9 ∧
    position accentedText 2 < position accentedText 9 ∧ position accentedText 9 = ⟨3, 3⟩ ∧
    offsetOf? accentedText ⟨3, 3⟩ = some 9 := by
  have hbreak : IsBoundary accentedText 2 := ⟨"é", "\n\nß本", by decide, by decide⟩
  have hend : IsBoundary accentedText 9 := ⟨accentedText, "", by decide, by decide⟩
  obtain ⟨horder, hcount, hfound⟩ := positions_identify_offsets accentedText
  have hposition : position accentedText 9 = ⟨3, 3⟩ := (hcount 9 hend).trans (by decide)
  exact ⟨hbreak, hend, (horder 2 9 hbreak hend).2 (by decide), hposition, (hfound _ _).2 ⟨hend, hposition⟩⟩

end RuleWeaver
