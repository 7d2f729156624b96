import RuleWeaver.Proofs.Source.Tokens
import RuleWeaver.Text.Quoted

/-!
# Literals that are written

A text written as an interpreted literal is one lexeme (`lex_quote_append`) and is read back as it was (`unquote_quote`), so a
literal by itself is a well-formed source of one token.
-/

namespace RuleWeaver

open Text (quote quoteChar unquote unescape between? strip? stripEnd?)

variable {s y : Text}

namespace Source

lemma quoted_flatMap_quoteChar : quoted '\"' (s.flatMap quoteChar ++ '\"' :: y) = (true, (s.flatMap quoteChar).length + 1) := by
  induction s with
  | nil => simp [quoted]
  | cons c s ih =>
    rw [List.flatMap_cons, List.append_assoc]
    generalize s.flatMap quoteChar = t at ih
    have esc : ∀ d : Char, d ≠ '\n' → quoted '\"' ('\\' :: d :: (t ++ '\"' :: y)) = (true, t.length + 3) := by
      intro d hd
      rw [quoted_escape hd, ih]
    unfold quoteChar
    split
    · exact esc _ (by decide)
    · exact esc _ (by decide)
    · exact esc _ (by decide)
    · exact esc _ (by decide)
    · next h₁ h₂ h₃ h₄ =>
      rw [List.cons_append, quoted_cons h₁, if_neg h₃, if_neg h₂, List.nil_append, ih]
      rfl

/-- A text that is written as a literal is one lexeme. -/
@[simp] lemma lex_quote_append : lex (quote s ++ y) = ⟨.string, quote s⟩ :: lex y := by
  have h := quoted_flatMap_quoteChar (s := s) (y := y)
  rw [quote, List.cons_append]
  refine lex_cons ?_
  rw [List.append_assoc]
  show munchQuoted .string '\"' (s.flatMap quoteChar ++ '\"' :: y) = _
  rw [munchQuoted, h]
  simp

end Source

namespace Text

lemma unescape_flatMap_quoteChar : unescape (s.flatMap quoteChar) = s := by
  induction s with
  | nil => rfl
  | cons c s ih =>
    rw [List.flatMap_cons]
    generalize s.flatMap quoteChar = t at ih
    unfold quoteChar
    split
    · exact congrArg ('\\' :: ·) ih
    · exact congrArg ('\"' :: ·) ih
    · exact congrArg ('\n' :: ·) ih
    · exact congrArg ('\t' :: ·) ih
    · next h₁ h₂ h₃ h₄ =>
      rw [List.cons_append, List.nil_append, unescape.eq_def]
      split <;> simp_all

/-- **Literals are read back.** -/
@[simp] theorem unquote_quote : unquote (quote s) = s := by
  have h₁ : between? '\x60' (quote s) = none := by simp [between?, quote, strip?]
  have h₂ : between? '\"' (quote s) = some (s.flatMap quoteChar) := by
    simp [between?, quote, strip?, stripEnd?]
  rw [unquote, h₁, h₂]
  exact unescape_flatMap_quoteChar

end Text

namespace Source

lemma lex_quote : lex (quote s) = [⟨.string, quote s⟩] := by
  have h := lex_quote_append (s := s) (y := [])
  rwa [List.append_nil, lex_nil] at h

/-- **A text survives its literal.**  The literal of a text is one token from its beginning to its end, and stands for the
text. -/
theorem literal_is_one_token_and_read_back (s : Text) :
    tokenize (quote s) = .ok [⟨.string, quote s, 0⟩] ∧ unquote (quote s) = s := by
  have htokens : tokens (quote s) = [⟨.string, quote s, 0⟩] := by rw [tokens, lex_quote, place_cons, place_nil]
  have hwhole : isWhole (quote s) := by
    rw [isWhole_iff, lex_quote]
    exact fun l hl => by rw [List.mem_singleton.1 hl]; rfl
  have hbalanced : isBalanced [] (lex (quote s)) := by
    rw [lex_quote]
    rfl
  refine ⟨tokenize_eq_ok_iff.2 ⟨hwhole, hbalanced, ?_⟩, Text.unquote_quote⟩
  rw [htokens]
  rfl

end Source

end RuleWeaver
