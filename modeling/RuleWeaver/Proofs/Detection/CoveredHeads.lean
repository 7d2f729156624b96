import RuleWeaver.Proofs.Detection.Declared
import RuleWeaver.Proofs.Source.Blanking

/-!
# Heads and comments

Blanking comments changes nothing in front of a slash, so the head of a function is found where no comment covers its first
character (`hasFunctionHead_of_uncovered`).
-/

namespace RuleWeaver

open Source
open Detection (FunctionHead HasFunctionHead IsFoundName freshBehind)

variable {s w x lead name rest : Text} {ls : List Lexeme}

/-- Blanking keeps everything up to the first slash. -/
lemma prefix_codeOf_of_joined (hls : ∀ l ∈ ls, l ∈ lex s) (hslash : '/' ∉ x) (h : x <+: w ++ joined ls) :
    x <+: w ++ codeOf ls := by
  induction ls generalizing w with
  | nil => exact h
  | cons l ls ih =>
    obtain ⟨hl, hls⟩ := List.forall_mem_cons.1 hls
    rw [joined_cons] at h
    rw [codeOf_cons, ← List.append_assoc]
    by_cases hcomment : l.kind.isComment
    · obtain ⟨t, ht⟩ := exists_comment hl hcomment
      rw [ht, List.cons_append] at h
      rw [List.append_assoc]
      exact (Text.prefix_of_prefix_append_cons h hslash).trans (List.prefix_append _ _)
    · rw [Lexeme.code, if_neg hcomment]
      rw [← List.append_assoc] at h
      exact ih hls h

/-- Whether a comment covers an offset. -/
def Detection.IsCovered (s : Text) (n : Nat) : Prop := ∃ t ∈ tokens s, t.kind.isComment ∧ t.start ≤ n ∧ n < t.stop

instance {n : Nat} : Decidable (Detection.IsCovered s n) := inferInstanceAs (Decidable (∃ t ∈ tokens s, _))

open Detection (IsCovered)

/-- **A head that no comment covers** is found. -/
theorem hasFunctionHead_of_uncovered (hfresh : freshBehind true lead) (hname : IsFoundName name) (hslash : '/' ∉ name)
    (h : s = lead ++ ("func ".toList ++ (name ++ '(' :: rest))) (hfree : ¬ IsCovered s lead.width) :
    HasFunctionHead name s := by
  have hkeyword : "func ".toList = 'f' :: "unc ".toList := by decide
  have hjoined : joined (lex s) = lead ++ 'f' :: ("unc ".toList ++ (name ++ '(' :: rest)) := by
    rw [joined_lex, h, hkeyword]
    rfl
  obtain ⟨xs, l, ys, p, q, hlex, htext, rfl, hbehind⟩ := exists_lexeme_at hjoined
  have hplain : l.kind.isComment = false := by
    by_contra hcomment
    refine hfree ⟨⟨l.kind, l.text, (joined xs).width⟩, mem_tokens.2 ⟨xs, ys, hlex, rfl⟩, by simpa using hcomment, ?_, ?_⟩
    · rw [Text.width_append]
      exact Nat.le_add_right _ _
    · have hf : Char.utf8Size 'f' = 1 := rfl
      rw [Token.stop, Text.width_append, htext, Text.width_append, Text.width_cons, hf]
      show _ < (joined xs).width + _
      omega
  have hstart : "func ".toList ++ (name ++ ['(']) <+: ('f' :: q) ++ codeOf ys := by
    refine prefix_codeOf_of_joined (s := s) (fun l hl => by rw [hlex]; simp [hl]) ?_ ⟨rest, ?_⟩
    · simp only [List.mem_append, not_or]
      exact ⟨by decide, hslash, by decide⟩
    · rw [List.cons_append, ← hbehind, hkeyword]
      simp
  obtain ⟨rest', hrest⟩ := hstart
  refine ⟨codeOf xs ++ p, "func ".toList ++ (name ++ '(' :: rest'), rest', ?_, ?_, ?_⟩
  · rw [commentsBlanked_eq, hlex, codeOf_append, codeOf_cons, Lexeme.code, hplain, if_neg Bool.false_ne_true, htext]
    have hsplit : "func ".toList ++ (name ++ '(' :: rest') = 'f' :: q ++ codeOf ys := by
      rw [← hrest]
      simp
    rw [hsplit]
    simp only [List.append_assoc, List.cons_append]
  · rw [Detection.freshBehind_append, freshBehind_codeOf, ← Detection.freshBehind_append]
    exact hfresh
  · exact ⟨[' '], [], '(', List.cons_ne_nil _ _, by decide, hname, rfl, .inl rfl, rfl⟩

end RuleWeaver
