import RuleWeaver.Proofs.Source.Sections
import RuleWeaver.Proofs.Source.Trimming

/-!
# What stands between code

Blanks, line breaks and comments are white space once comments are blanked (`all_isSpace_codeOf_gap`), and they are nothing
among the lexemes of a class that carries meaning (`filter_statementPart`).
-/

namespace RuleWeaver.Source

open Unicode (isSpace)
open Text (run)

variable {s : Text} {l : Lexeme} {g xs : List Lexeme} {x : Char} {y : Text} {k : Kind} {e : Bool}

/-- Whether lexemes carry no meaning. -/
def IsGapCode (g : List Lexeme) : Prop := ∀ l ∈ g, l.kind.isSignificant = false

lemma wordKind_isSignificant {w : Text} : (wordKind w).isSignificant := by
  fun_cases wordKind w <;> rfl

/-- A lexeme without meaning that is no comment is a line break or a run of blanks. -/
lemma munch_gap (h : (munch x y).1.isSignificant = false) (hc : (munch x y).1.isComment = false) :
    (isBlank x ∧ (munch x y).2 = run isBlank y) ∨ (x = '\n' ∧ (munch x y).2 = 0) := by
  unfold munch at h hc ⊢
  split at h
  · next hb =>
    rw [if_pos hb]
    exact .inl ⟨hb, rfl⟩
  split at h
  · rw [wordKind_isSignificant] at h
    cases h
  split at h
  · cases h
  next h₁ h₂ h₃ =>
  rw [if_neg h₁, if_neg h₂, if_neg h₃] at hc ⊢
  split at h
  case h_1 => exact .inr ⟨rfl, rfl⟩
  case h_2 | h_3 =>
    rcases munchQuoted_fst with e | e <;> rw [e] at h <;> cases h
  case h_4 =>
    rcases munchRaw_fst with e | e <;> rw [e] at h <;> cases h
  case h_13 => split at h <;> cases h
  case h_14 =>
    replace hc : (munchSlash y).1.isComment = false := hc
    rcases munchSlash_fst (y := y) with e | e | e <;> rw [e] at h hc
    · cases hc
    · cases h
    · cases hc
  case h_15 =>
    split at h
    · rcases munchOperator_fst with e | e | e | e <;> rw [e] at h <;> cases h
    · cases h
  all_goals cases h

/-- What comments begin with. -/
lemma comment_cases (hl : l ∈ lex s) (hk : l.kind.isComment) :
    (l.kind = .lineComment ∧ ∃ t, l.text = '/' :: '/' :: t ∧ '\n' ∉ t) ∨ l.kind = .blockComment ∧ ∃ t, l.text = '/' :: '*' :: t := by
  have hs : l.isSound := by
    rw [Lexeme.isSound]
    revert hk
    cases l.kind <;> simp [Kind.isComment]
  obtain ⟨c, u, ht, hm⟩ := exists_munch_of_mem hl hs
  cases wholeForm hm (kind_ne_stray hs) with
  | lineComment e hc v hu hv => exact .inl ⟨e, v, by rw [ht, hc, hu], hv⟩
  | blockComment e hc v hu hv => exact .inr ⟨e, v, by rw [ht, hc, hu]⟩
  | blank e | number e | raw e | dot e | ellipsis e => simp [e, Kind.isComment] at hk
  | word e =>
    have := wordKind_isSignificant (w := c :: u)
    rw [← e] at this
    revert hk this
    cases l.kind <;> simp [Kind.isComment, Kind.isSignificant]
  | single e =>
    revert hk e
    cases l.kind <;> simp [Kind.isComment, Kind.isSingle]
  | quoted e => rcases e with e | e <;> simp [e, Kind.isComment] at hk
  | operator e => rcases e with e | e | e | e <;> simp [e, Kind.isComment] at hk

lemma exists_comment (hl : l ∈ lex s) (hk : l.kind.isComment) : ∃ t, l.text = '/' :: t := by
  rcases comment_cases hl hk with ⟨-, t, ht, -⟩ | ⟨-, t, ht⟩ <;> exact ⟨_, ht⟩

/-- A comment to the end of a line holds no line break. -/
lemma exists_lineComment (hl : l ∈ lex s) (hk : l.kind = .lineComment) : ∃ t, l.text = '/' :: '/' :: t ∧ '\n' ∉ t := by
  rcases comment_cases hl (by rw [hk]; rfl) with ⟨-, h⟩ | ⟨e, -⟩
  · exact h
  · rw [hk] at e
    cases e

/-- What carries no meaning is white space once comments are blanked. -/
lemma all_isSpace_code (hl : l ∈ lex s) (h : l.kind.isSignificant = false) : l.code.all isSpace := by
  by_cases hc : l.kind.isComment
  · rw [Lexeme.code, if_pos hc]
    exact Trimmed.all_isSpace_blanked
  obtain ⟨xs, ys, e⟩ := List.append_of_mem hl
  have h' : lex (joined (l :: ys)) = l :: ys := lex_joined_right e
  obtain ⟨x, u, y, -, hm, ht, -⟩ := lex_cons_inv h'
  have hmunch := @munch_gap x (u ++ y) (by rw [hm]; exact h) (by rw [hm]; simpa using hc)
  rw [hm] at hmunch
  rw [Lexeme.code, if_neg hc, ht]
  rcases hmunch with ⟨hb, hrun⟩ | ⟨rfl, hu⟩
  · have hall := (Text.run_append_eq_length_iff.1 hrun.symm).1
    rw [List.all_cons, isSpace_of_isBlank hb, Bool.true_and]
    exact List.all_eq_true.2 fun c hc => isSpace_of_isBlank (List.all_eq_true.1 hall c hc)
  · obtain rfl := List.length_eq_zero_iff.1 hu
    decide

lemma all_isSpace_codeOf_gap (hs : ∀ l ∈ g, l ∈ lex s) (hg : IsGapCode g) : (codeOf g).all isSpace := by
  rw [codeOf, List.all_flatMap, List.all_eq_true]
  exact fun l hl => all_isSpace_code (hs l hl) (hg l hl)

lemma codeOf_ne_nil (hs : ∀ l ∈ g, l ∈ lex s) (hg : g ≠ []) : codeOf g ≠ [] := by
  obtain ⟨l, g, rfl⟩ := List.exists_cons_of_ne_nil hg
  intro h
  have hwidth : (joined (l :: g)).width = 0 := by
    rw [← width_codeOf, h]
    rfl
  have htext : l.text ≠ [] := text_ne_nil (hs l List.mem_cons_self)
  rw [joined_cons, Text.width_append, Nat.add_eq_zero_iff, Text.width_eq_zero_iff] at hwidth
  exact htext hwidth.1

/-- Statement ends and gaps are not among the lexemes of a class that carries meaning. -/
lemma filter_statementPart {p : Kind → Bool} (hp : ∀ k, p k → k.isSignificant) (hsemi : p .semi = false) :
    (statementPart e xs).filter (p ·.kind) = xs.filter (p ·.kind) := by
  induction xs generalizing e with
  | nil => rfl
  | cons l xs ih =>
    have hinsignificant : ∀ {b : Bool}, l.kind.isSignificant = false →
        (statementPart b xs).filter (p ·.kind) = (l :: xs).filter (p ·.kind) := by
      intro b hl
      rw [List.filter_cons_of_neg, ih]
      intro hk
      rw [hp _ hk] at hl
      cases hl
    by_cases hl : l.kind.isSignificant
    · rw [statementPart_cons_of_isSignificant hl, List.filter_cons, List.filter_cons, ih]
    · have hl : l.kind.isSignificant = false := by simpa using hl
      have himplied : p Lexeme.impliedSemi.kind = false := hsemi
      rw [statementPart]
      split
      · split
        · rw [List.filter_cons_of_neg (by rw [himplied]; exact Bool.false_ne_true), hinsignificant hl]
        · exact hinsignificant hl
      · rw [if_pos]
        · exact hinsignificant hl
        · next hb =>
          revert hl hb
          unfold Lexeme.breaksLine
          cases l.kind <;> simp [Kind.isSignificant, Kind.isComment]

end RuleWeaver.Source
