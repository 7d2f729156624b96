import RuleWeaver.Proofs.Registry.Entries
import RuleWeaver.Proofs.Rule.NormalForm

/-!
# Keys that are read back

A key of a map literal is written with escapes, and what is found of it is the text between its quotes.  So entries are
found under the keys they were written for exactly if no key has a character that is escaped (`entries_read_back_iff`).
-/

namespace RuleWeaver

open Text (quoteChar)

variable {c : Char} {s : Text} {entries : List (Text × Text)}

/-- Whether a character of a key is escaped where the key is written; quotes are not in question. -/
def isEscaped (c : Char) : Bool := c = '\\' || c = '\n' || c = '\t'

lemma quoteChar_eq_iff (hq : c ≠ '\"') : quoteChar c = [c] ↔ isEscaped c = false := by
  unfold quoteChar
  split
  · exact ⟨fun h => absurd h (by decide), fun h => absurd h (by decide)⟩
  · exact absurd rfl hq
  · exact ⟨fun h => absurd h (by decide), fun h => absurd h (by decide)⟩
  · exact ⟨fun h => absurd h (by decide), fun h => absurd h (by decide)⟩
  · next h₁ _ h₃ h₄ =>
    have h₁ : ¬ c = '\\' := h₁
    have h₃ : ¬ c = '\n' := h₃
    have h₄ : ¬ c = '\t' := h₄
    simp [isEscaped, h₁, h₃, h₄]

lemma length_le_flatMap_quoteChar : s.length ≤ (s.flatMap quoteChar).length := by
  induction s with
  | nil => exact Nat.le_refl _
  | cons c s ih =>
    have hpos : 1 ≤ (quoteChar c).length := by
      unfold quoteChar
      split <;> exact Nat.succ_le_succ (Nat.zero_le _)
    rw [List.flatMap_cons, List.length_append, List.length_cons]
    omega

/-- A key is written as it is if none of its characters is escaped. -/
lemma flatMap_quoteChar_eq_self_iff (hq : '\"' ∉ s) : s.flatMap quoteChar = s ↔ ∀ c ∈ s, isEscaped c = false := by
  induction s with
  | nil => simp
  | cons c s ih =>
    rw [List.mem_cons, not_or] at hq
    rw [List.forall_mem_cons, ← ih hq.2, ← quoteChar_eq_iff (Ne.symm hq.1), List.flatMap_cons]
    constructor
    · intro h
      have hlength := congrArg List.length h
      have hle := length_le_flatMap_quoteChar (s := s)
      rw [List.length_append, List.length_cons] at hlength
      rcases hc : quoteChar c with _ | ⟨d, _ | ⟨e, t⟩⟩
      · unfold quoteChar at hc
        split at hc <;> cases hc
      · rw [hc] at h
        obtain ⟨rfl, h⟩ := List.cons.inj h
        exact ⟨rfl, by simpa using h⟩
      · rw [hc, List.length_cons, List.length_cons] at hlength
        omega
    · rintro ⟨hc, hs⟩
      rw [hc, hs]
      rfl

/-- **Entries are read back** as they were written exactly if no key has a character that is escaped. -/
theorem entries_read_back_iff (hkeys : ∀ e ∈ entries, ∃ tag, ∃ r ∈ Rule.ofTag tag, r.tag = e.1)
    (hvalues : ∀ e ∈ entries, Snippet.isLocalName e.2) :
    ∃ inner, GrowingMap.render ⟨[], entries.map fun e => (e.1, .name e.2)⟩ = '\x7b' :: (inner ++ ['\x7d']) ∧
      Detection.literalEntries inner = entries.map (fun e => ⟨e.1.flatMap quoteChar, some e.2⟩) ∧
      (Detection.literalEntries inner = entries.map (fun e => ⟨e.1, some e.2⟩) ↔
        ∀ e ∈ entries, ∀ c ∈ e.1, isEscaped c = false) := by
  have hentry : ∀ e ∈ entries.map fun e => (e.1, EntryValue.name e.2), GrowingMap.IsEntry e := by
    intro e he
    obtain ⟨f, hf, rfl⟩ := List.mem_map.1 he
    exact isFunctionName_of_isLocalName (hvalues f hf)
  have htag : ∀ e ∈ entries, e.1 ≠ [] ∧ '\"' ∉ e.1 := by
    intro e he
    obtain ⟨tag, r, hr, htag⟩ := hkeys e he
    exact htag ▸ Rule.tag_of_mem_ofTag hr
  have hfound : Detection.literalEntries (GrowingMap.bodyText (entries.map fun e => (e.1, .name e.2))) =
      entries.map fun e => ⟨e.1.flatMap quoteChar, some e.2⟩ := by
    rw [GrowingMap.literalEntries_bodyText hentry, List.flatMap_map, List.map_eq_flatMap]
    refine List.flatMap_congr fun e he => ?_
    rw [GrowingMap.foundEntries, if_neg (htag e he).1]
  refine ⟨_, GrowingMap.render_eq, hfound, ?_⟩
  rw [hfound, List.map_inj_left]
  refine forall₂_congr fun e he => ?_
  rw [FoundEntry.mk.injEq, and_iff_left rfl, flatMap_quoteChar_eq_self_iff (htag e he).2]

/-- An entry for a tag with a backslash is found under another key. -/
theorem entry_with_backslash_is_missed :
    (∃ r ∈ Rule.ofTag "validate:\"a\\b\"", r.tag = "a\\b".toList) ∧ Snippet.isLocalName "validateA_b" ∧
      ∃ inner, GrowingMap.render ⟨[], [("a\\b", .name "validateA_b")]⟩ = '\x7b' :: (inner ++ ['\x7d']) ∧
        Detection.literalEntries inner ≠ [⟨"a\\b", some "validateA_b"⟩] := by
  have htag : ∃ r ∈ Rule.ofTag "validate:\"a\\b\"", r.tag = "a\\b".toList := by decide +kernel
  have hname : Snippet.isLocalName "validateA_b" := by decide +kernel
  obtain ⟨inner, hrender, -, hiff⟩ := @entries_read_back_iff [("a\\b", "validateA_b")]
    (fun e he => by
      rw [List.mem_singleton.1 he]
      exact ⟨_, htag⟩)
    (fun e he => by
      rw [List.mem_singleton.1 he]
      exact hname)
  refine ⟨htag, hname, inner, hrender, fun h => ?_⟩
  have hescaped := hiff.1 h ("a\\b", "validateA_b") (List.mem_singleton.2 rfl) '\\' (by decide)
  exact absurd hescaped (by decide)

end RuleWeaver
