import RuleWeaver.Proofs.Source.Tokens
import RuleWeaver.Source.Statements

/-!
# Statement ends of lexemes

Where statements end does not depend on where tokens stand.  `statementPart` is what `endStatements` makes of a part of a
text, `endingBehind` whether the part leaves a statement that a line break would end.
-/

namespace RuleWeaver.Source

variable {e : Bool} {l : Lexeme} {xs ys : List Lexeme} {ts : List Token}

/-- Whether a lexeme breaks the line. -/
def Lexeme.breaksLine (l : Lexeme) : Bool := l.kind = .newline ∨ (l.kind = .blockComment ∧ '\n' ∈ l.text)

/-- A statement end that does not stand in the text. -/
def Lexeme.impliedSemi : Lexeme := ⟨.semi, []⟩

/-- Lexemes with statement ends made explicit, without the one at the end of a text. -/
def statementPart : Bool → List Lexeme → List Lexeme
  | _, [] => []
  | e, l :: ls =>
    if l.breaksLine then if e then .impliedSemi :: statementPart false ls else statementPart false ls
    else if l.kind = .blank ∨ l.kind.isComment then statementPart e ls
    else l :: statementPart l.kind.endsStatement ls

/-- Whether a line break behind lexemes would end a statement. -/
def endingBehind : Bool → List Lexeme → Bool
  | e, [] => e
  | e, l :: ls =>
    if l.breaksLine then endingBehind false ls
    else if l.kind = .blank ∨ l.kind.isComment then endingBehind e ls
    else endingBehind l.kind.endsStatement ls

/-- Lexemes of a whole text with statement ends made explicit. -/
def statementLexemes (e : Bool) (ls : List Lexeme) : List Lexeme :=
  statementPart e ls ++ if endingBehind e ls then [.impliedSemi] else []

lemma not_breaksLine_of_isSignificant (h : l.kind.isSignificant) :
    l.breaksLine = false ∧ ¬ (l.kind = .blank ∨ l.kind.isComment) := by
  revert h
  unfold Lexeme.breaksLine
  cases l.kind <;> simp [Kind.isSignificant, Kind.isComment]

lemma statementPart_cons_of_isSignificant (h : l.kind.isSignificant) :
    statementPart e (l :: xs) = l :: statementPart l.kind.endsStatement xs := by
  obtain ⟨h₁, h₂⟩ := not_breaksLine_of_isSignificant h
  rw [statementPart, h₁, if_neg Bool.false_ne_true, if_neg h₂]

lemma endingBehind_cons_of_isSignificant (h : l.kind.isSignificant) :
    endingBehind e (l :: xs) = endingBehind l.kind.endsStatement xs := by
  obtain ⟨h₁, h₂⟩ := not_breaksLine_of_isSignificant h
  rw [endingBehind, h₁, if_neg Bool.false_ne_true, if_neg h₂]

lemma mem_of_mem_statementPart (h : l ∈ statementPart e xs) : l = .impliedSemi ∨ l ∈ xs := by
  induction xs generalizing e with
  | nil => cases h
  | cons m xs ih =>
    have ih := fun e h => (@ih e h).imp_right (List.mem_cons_of_mem m)
    rw [statementPart] at h
    split at h
    · split at h
      · rcases List.mem_cons.1 h with rfl | h
        · exact .inl rfl
        · exact ih _ h
      · exact ih _ h
    split at h
    · exact ih _ h
    · rcases List.mem_cons.1 h with rfl | h
      · exact .inr List.mem_cons_self
      · exact ih _ h

/-- Between statements, blanks, line breaks and comments are nothing. -/
lemma statementPart_of_forall_not_isSignificant (h : ∀ l ∈ xs, l.kind.isSignificant = false) :
    statementPart false xs = [] ∧ endingBehind false xs = false := by
  induction xs with
  | nil => exact ⟨rfl, rfl⟩
  | cons l xs ih =>
    have ih := ih fun m hm => h m (List.mem_cons_of_mem _ hm)
    have hl := h l List.mem_cons_self
    rw [statementPart, endingBehind]
    split
    · exact ih
    · next hbreak =>
      have hinsignificant : l.kind = .blank ∨ l.kind.isComment := by
        revert hbreak hl
        unfold Lexeme.breaksLine
        cases l.kind <;> simp [Kind.isSignificant, Kind.isComment]
      rwa [if_pos hinsignificant, if_pos hinsignificant]

/-- What stands in front of the first lexeme of a statement carries no meaning. -/
lemma statementPart_eq_cons (h : statementPart e xs = l :: ys) (hl : l.kind ≠ .semi) :
    ∃ g zs, xs = g ++ l :: zs ∧ (∀ m ∈ g, m.kind.isSignificant = false) ∧ ys = statementPart l.kind.endsStatement zs := by
  induction xs generalizing e with
  | nil => cases h
  | cons m xs ih =>
    have skip : ∀ {b : Bool}, m.kind.isSignificant = false → statementPart b xs = l :: ys →
        ∃ g zs, m :: xs = g ++ l :: zs ∧ (∀ m ∈ g, m.kind.isSignificant = false) ∧ ys = statementPart l.kind.endsStatement zs := by
      intro b hm h
      obtain ⟨g, zs, rfl, hg, hys⟩ := ih h
      exact ⟨m :: g, zs, rfl, List.forall_mem_cons.2 ⟨hm, hg⟩, hys⟩
    by_cases hm : m.kind.isSignificant
    · rw [statementPart_cons_of_isSignificant hm] at h
      obtain ⟨rfl, rfl⟩ := List.cons.inj h
      exact ⟨[], xs, rfl, by simp, rfl⟩
    · have hm : m.kind.isSignificant = false := by simpa using hm
      rw [statementPart] at h
      split at h
      · split at h
        · obtain ⟨rfl, -⟩ := List.cons.inj h
          exact absurd rfl hl
        · exact skip hm h
      · split at h
        · exact skip hm h
        · next hbreak hblank =>
          revert hm hbreak hblank
          unfold Lexeme.breaksLine
          cases m.kind <;> simp [Kind.isSignificant, Kind.isComment]

@[simp] lemma statementPart_append :
    statementPart e (xs ++ ys) = statementPart e xs ++ statementPart (endingBehind e xs) ys := by
  induction xs generalizing e with
  | nil => rfl
  | cons l xs ih =>
    simp only [List.cons_append, statementPart, endingBehind]
    split
    · split <;> simp [ih]
    split <;> simp [ih]

@[simp] lemma endingBehind_append : endingBehind e (xs ++ ys) = endingBehind (endingBehind e xs) ys := by
  induction xs generalizing e with
  | nil => rfl
  | cons l xs ih =>
    simp only [List.cons_append, endingBehind]
    split
    · exact ih
    split <;> exact ih

lemma statementLexemes_append :
    statementLexemes e (xs ++ ys) = statementPart e xs ++ statementLexemes (endingBehind e xs) ys := by
  simp [statementLexemes]

/-- The tokens of a text with statement ends made explicit. -/
def statementTokens (s : Text) : List Token := endStatements s.width false ((tokens s).filter (·.kind ≠ .blank))

lemma map_lexeme_endStatements {size : Nat} :
    (endStatements size e (ts.filter (·.kind ≠ .blank))).map Token.lexeme =
      statementLexemes e (ts.map Token.lexeme) := by
  induction ts generalizing e with
  | nil => cases e <;> rfl
  | cons t ts ih =>
    have hbreak : t.lexeme.breaksLine = t.breaksLine := rfl
    by_cases hb : t.kind = .blank
    · have : t.breaksLine = false := by simp [Token.breaksLine, hb]
      rw [List.filter_cons_of_neg (by simpa using hb), ih]
      simp [statementLexemes, statementPart, endingBehind, hbreak, this, hb]
    · rw [List.filter_cons_of_pos (by simpa using hb), List.map_cons]
      generalize ts.filter _ = us at ih
      simp only [endStatements, statementLexemes, statementPart, endingBehind, hbreak, Token.lexeme_kind, hb, false_or]
      split
      · split <;> simp [ih, statementLexemes, Token.lexeme, Token.impliedSemi, Lexeme.impliedSemi]
      split <;> simp [ih, statementLexemes]

/-- **Statement ends depend on lexemes alone.** -/
theorem map_lexeme_statementTokens {s : Text} :
    (statementTokens s).map Token.lexeme = statementLexemes false (lex s) := by
  rw [statementTokens, map_lexeme_endStatements, map_lexeme_tokens]

end RuleWeaver.Source
