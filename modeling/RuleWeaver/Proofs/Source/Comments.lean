import RuleWeaver.Proofs.Source.Lexing
import RuleWeaver.Source.Comments

/-!
# Blanked comments

Blanking comments keeps offsets and line breaks, and goes on part by part where splitting does.
-/

namespace RuleWeaver.Source

variable {s u v : Text} {x : Char} {l : Lexeme} {ls xs ys : List Lexeme}

/-- The text of a lexeme, blanked if it is a comment. -/
def Lexeme.code (l : Lexeme) : Text := if l.kind.isComment then blanked l.text else l.text

/-- The text of several lexemes with its comments blanked. -/
def codeOf (ls : List Lexeme) : Text := ls.flatMap Lexeme.code

lemma commentsBlanked_eq : commentsBlanked s = codeOf (lex s) := rfl

@[simp] lemma codeOf_nil : codeOf [] = [] := rfl

@[simp] lemma codeOf_cons : codeOf (l :: ls) = l.code ++ codeOf ls := List.flatMap_cons

@[simp] lemma codeOf_append : codeOf (xs ++ ys) = codeOf xs ++ codeOf ys := List.flatMap_append

lemma codeOf_of_no_comment (h : ∀ l ∈ ls, l.kind.isComment = false) : codeOf ls = joined ls := by
  induction ls with
  | nil => rfl
  | cons l ls ih =>
    have hl : l.code = l.text := by simp [Lexeme.code, h l List.mem_cons_self]
    rw [codeOf_cons, joined_cons, hl, ih fun l hl => h l (List.mem_cons_of_mem _ hl)]

/-- A text without comments stays as it is. -/
lemma commentsBlanked_of_no_comment (h : ∀ l ∈ lex s, l.kind.isComment = false) : commentsBlanked s = s := by
  rw [commentsBlanked_eq, codeOf_of_no_comment h, joined_lex]

lemma width_blanked : (blanked s).width = s.width := by
  have hblanks : ∀ n, Text.width (List.replicate n ' ') = n := by
    intro n
    induction n with
    | zero => rfl
    | succ n ih =>
      rw [List.replicate_succ, Text.width_cons, ih, Nat.add_comm]
      rfl
  induction s with
  | nil => rfl
  | cons c s ih =>
    rw [blanked, List.flatMap_cons, Text.width_append, ← blanked, ih, Text.width_cons]
    split
    · next h => rw [h]; rfl
    · rw [hblanks]

lemma width_codeOf : (codeOf ls).width = (joined ls).width := by
  induction ls with
  | nil => rfl
  | cons l ls ih =>
    have hl : l.code.width = l.text.width := by
      unfold Lexeme.code
      split
      · exact width_blanked
      · rfl
    rw [codeOf_cons, joined_cons, Text.width_append, Text.width_append, hl, ih]

/-- Offsets in a text are offsets in the text with its comments blanked. -/
lemma width_commentsBlanked : (commentsBlanked s).width = s.width := by
  rw [commentsBlanked_eq, width_codeOf, joined_lex]

lemma commentsBlanked_append {a b : Text} (h : lex (a ++ b) = lex a ++ lex b) :
    commentsBlanked (a ++ b) = commentsBlanked a ++ commentsBlanked b := by
  rw [commentsBlanked_eq, h, codeOf_append]
  rfl

/-- A line comment goes up to the end of its line, or of the text. -/
lemma lex_lineComment_append {y : Text} (h : '\n' ∉ s) (hy : y.head?.all (· = '\n')) :
    lex ('/' :: '/' :: (s ++ y)) = ⟨.lineComment, '/' :: '/' :: s⟩ :: lex y := by
  have hrun : Text.run (· ≠ '\n') ('/' :: (s ++ y)) = ('/' :: s).length := by
    rw [← List.cons_append]
    refine Text.run_append_eq_length_iff.2 ⟨?_, by simpa using hy⟩
    rw [List.all_eq_true]
    intro c hc
    rcases List.mem_cons.1 hc with rfl | hc
    · rfl
    · rw [decide_eq_true_eq]
      rintro rfl
      exact h hc
  have hm : munch '/' ('/' :: s ++ y) = (.lineComment, ('/' :: s).length) := by
    show munchSlash ('/' :: (s ++ y)) = _
    rw [munchSlash_slash, hrun]
  exact lex_cons hm

lemma lex_lineComment {y : Text} (h : '\n' ∉ s) :
    lex ('/' :: '/' :: (s ++ '\n' :: y)) = ⟨.lineComment, '/' :: '/' :: s⟩ :: lex ('\n' :: y) :=
  lex_lineComment_append h rfl

/-- A comment on one line is blanked to spaces. -/
lemma eq_space_of_mem_blanked {c : Char} (h : '\n' ∉ s) (hc : c ∈ blanked s) : c = ' ' := by
  obtain ⟨d, hd, hmem⟩ := List.mem_flatMap.1 hc
  have hne : d ≠ '\n' := by
    rintro rfl
    exact h hd
  rw [if_neg hne] at hmem
  exact (List.mem_replicate.1 hmem).2

lemma mem_blanked (h : x ∈ blanked s) : x = ' ' ∨ x = '\n' := by
  obtain ⟨c, -, hx⟩ := List.mem_flatMap.1 h
  split at hx
  · exact .inr (List.mem_singleton.1 hx)
  · exact .inl (List.mem_replicate.1 hx).2

/-- A character of the code of a text stands in a lexeme that is no comment. -/
lemma exists_lexeme_of_codeOf (hx : x ≠ ' ') (hx' : x ≠ '\n') (h : codeOf ls = u ++ x :: v) :
    ∃ xs l ys p q, ls = xs ++ l :: ys ∧ l.kind.isComment = false ∧ l.text = p ++ x :: q ∧ u = codeOf xs ++ p ∧
      v = q ++ codeOf ys := by
  induction ls generalizing u with
  | nil => simp at h
  | cons l ls ih =>
    rw [codeOf_cons] at h
    have later : ∀ w, codeOf ls = w ++ x :: v → u = l.code ++ w → ∃ xs l' ys p q, l :: ls = xs ++ l' :: ys ∧
        l'.kind.isComment = false ∧ l'.text = p ++ x :: q ∧ u = codeOf xs ++ p ∧ v = q ++ codeOf ys := by
      intro w hw hu
      obtain ⟨xs, l', ys, p, q, rfl, hk, ht, rfl, rfl⟩ := ih hw
      exact ⟨l :: xs, l', ys, p, q, rfl, hk, ht, by rw [hu]; simp, rfl⟩
    rcases List.append_eq_append_iff.1 h with ⟨w, hu, hw⟩ | ⟨w, hl, hw⟩
    · exact later w hw hu
    · rcases w with _ | ⟨y, w⟩
      · exact later [] (by simpa using hw.symm) (by simpa using hl.symm)
      · obtain ⟨rfl, rfl⟩ := List.cons.inj hw
        have hk : l.kind.isComment = false := by
          by_contra hk
          have hmem : x ∈ l.code := by rw [hl]; simp
          rw [Lexeme.code, if_pos (by simpa using hk)] at hmem
          rcases mem_blanked hmem with rfl | rfl
          · exact hx rfl
          · exact hx' rfl
        rw [Lexeme.code, hk] at hl
        exact ⟨[], l, ls, u, w, rfl, hk, hl, rfl, rfl⟩

end RuleWeaver.Source
