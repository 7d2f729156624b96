import RuleWeaver.Proofs.Source.Blanking
import RuleWeaver.Proofs.Source.Coverage

/-!
# The bytes of a text with its comments blanked

Blanking turns the bytes of comments into spaces, but for line breaks, and leaves all other bytes as they are
(`commentsBlanked_exact`).  No comment is left, so blanking once more changes nothing.
-/

namespace RuleWeaver

variable {s t : Text} {c : Char} {b : UInt8} {i n : Nat}

/-! ### Bytes -/

/-- A text in UTF-8. -/
def Text.bytes (s : Text) : List UInt8 := s.flatMap String.utf8EncodeChar

namespace Text

@[simp] lemma bytes_cons : bytes (c :: s) = String.utf8EncodeChar c ++ bytes s := List.flatMap_cons

@[simp] lemma bytes_append : bytes (s ++ t) = s.bytes ++ t.bytes := List.flatMap_append

@[simp] lemma length_bytes : s.bytes.length = s.width := by
  induction s with
  | nil => rfl
  | cons c s ih => rw [bytes_cons, List.length_append, String.length_utf8EncodeChar, ih, width_cons]

/-- The byte of a line break stands for a line break alone. -/
lemma eq_newline_of_mem_utf8EncodeChar (h : 10 ∈ String.utf8EncodeChar c) : c = '\n' := by
  have hbyte : ∀ {n : Nat}, (10 : UInt8) = UInt8.ofNat n → n % 256 = 10 := fun {n} h => by
    have := congrArg UInt8.toNat h
    rw [UInt8.toNat_ofNat'] at this
    exact this.symm
  simp only [String.utf8EncodeChar] at h
  split at h
  · have hval := hbyte (List.mem_singleton.1 h)
    have hten : c.val.toNat = 10 := by omega
    exact Char.ext (UInt32.toNat_inj.1 hten)
  split at h
  · simp only [List.mem_cons, List.not_mem_nil, or_false] at h
    rcases h with h | h <;> have := hbyte h <;> omega
  split at h
  · simp only [List.mem_cons, List.not_mem_nil, or_false] at h
    rcases h with h | h | h <;> have := hbyte h <;> omega
  · simp only [List.mem_cons, List.not_mem_nil, or_false] at h
    rcases h with h | h | h | h <;> have := hbyte h <;> omega

lemma bytes_replicate_space : bytes (List.replicate n ' ') = List.replicate n 32 := by
  induction n with
  | zero => rfl
  | succ n ih =>
    rw [List.replicate_succ, bytes_cons, ih]
    rfl

end Text

namespace Source

variable {l : Lexeme} {ls : List Lexeme} {r : Span}

lemma bytes_blanked : (blanked s).bytes = s.bytes.map fun b => if b = 10 then b else 32 := by
  induction s with
  | nil => rfl
  | cons c s ih =>
    rw [blanked, List.flatMap_cons, ← blanked, Text.bytes_append, Text.bytes_cons, List.map_append, ih]
    refine congrArg (· ++ _) ?_
    by_cases hc : c = '\n'
    · subst hc
      rfl
    · have hspaces : ∀ b ∈ String.utf8EncodeChar c, (if b = 10 then b else 32) = 32 := fun b hb =>
        if_neg fun h : b = 10 => hc (Text.eq_newline_of_mem_utf8EncodeChar (h ▸ hb))
      rw [if_neg hc, Text.bytes_replicate_space, List.map_congr_left hspaces, List.map_const', String.length_utf8EncodeChar]

/-! ### Ranges of comments -/

/-- The ranges of the comments among lexemes that stand at an offset. -/
def commentsAt (n : Nat) (ls : List Lexeme) : List Span :=
  (place n ls).filterMap fun t => if t.kind.isComment then some t.span else none

lemma commentRanges_eq : commentRanges s = commentsAt 0 (lex s) := rfl

/-- Whether one of several ranges covers an offset. -/
def Covers (rs : List Span) (n : Nat) : Prop := ∃ r ∈ rs, r.start ≤ n ∧ n < r.stop

instance {rs : List Span} : Decidable (Covers rs n) := inferInstanceAs (Decidable (∃ r ∈ rs, _))

lemma mem_commentsAt : r ∈ commentsAt n ls ↔ ∃ t ∈ place n ls, t.kind.isComment ∧ t.span = r := by
  simp [commentsAt, List.mem_filterMap]

lemma commentsAt_cons : commentsAt n (l :: ls) =
    if l.kind.isComment then ⟨n, n + l.text.width⟩ :: commentsAt (n + l.text.width) ls else commentsAt (n + l.text.width) ls := by
  rw [commentsAt, place_cons, List.filterMap_cons]
  by_cases h : l.kind.isComment <;> simp [h, commentsAt, Token.span, Token.stop]

lemma le_start_of_mem_commentsAt (h : r ∈ commentsAt n ls) : n ≤ r.start := by
  obtain ⟨t, ht, -, rfl⟩ := mem_commentsAt.1 h
  exact le_start_of_mem_place ht

/-- In front of the other lexemes only the first one covers an offset. -/
lemma covers_commentsAt_cons_of_lt (hi : i < l.text.width) : Covers (commentsAt n (l :: ls)) (n + i) ↔ l.kind.isComment := by
  have hrest : ¬ Covers (commentsAt (n + l.text.width) ls) (n + i) := fun ⟨r, hr, hle, _⟩ => by
    have := le_start_of_mem_commentsAt hr
    omega
  rw [commentsAt_cons]
  split
  · next h => exact iff_of_true ⟨_, List.mem_cons_self, Nat.le_add_right _ _, Nat.add_lt_add_left hi n⟩ h
  · next h => exact iff_of_false hrest h

lemma covers_commentsAt_cons : Covers (commentsAt n (l :: ls)) (n + (i + l.text.width)) ↔
    Covers (commentsAt (n + l.text.width) ls) (n + l.text.width + i) := by
  have hsum : n + (i + l.text.width) = n + l.text.width + i := by omega
  rw [commentsAt_cons, hsum]
  split
  · refine ⟨fun ⟨r, hr, hle, hlt⟩ => ?_, fun ⟨r, hr, h⟩ => ⟨r, List.mem_cons_of_mem _ hr, h⟩⟩
    rcases List.mem_cons.1 hr with rfl | hr
    · dsimp only at hlt
      omega
    · exact ⟨r, hr, hle, hlt⟩
  · exact Iff.rfl

/-- Blanking a lexeme. -/
lemma bytes_code (n : Nat) (l : Lexeme) (ls : List Lexeme) : l.code.bytes =
    l.text.bytes.mapIdx fun i b => if Covers (commentsAt n (l :: ls)) (n + i) ∧ b ≠ 10 then 32 else b := by
  have hmap : l.text.bytes.mapIdx (fun i b => if Covers (commentsAt n (l :: ls)) (n + i) ∧ b ≠ 10 then 32 else b) =
      l.text.bytes.map fun b => if l.kind.isComment ∧ b ≠ 10 then 32 else b := by
    refine List.ext_getElem (by simp) fun i hi _ => ?_
    rw [List.length_mapIdx, Text.length_bytes] at hi
    rw [List.getElem_mapIdx, List.getElem_map]
    simp only [covers_commentsAt_cons_of_lt hi]
  rw [hmap, Lexeme.code]
  split
  · next h => simp [h, bytes_blanked, ite_not]
  · next h => simp [h]

/-- Blanking lexemes that stand at an offset. -/
lemma bytes_codeOf (n : Nat) (ls : List Lexeme) : (codeOf ls).bytes =
    (joined ls).bytes.mapIdx fun i b => if Covers (commentsAt n ls) (n + i) ∧ b ≠ 10 then 32 else b := by
  induction ls generalizing n with
  | nil => rfl
  | cons l ls ih =>
    rw [codeOf_cons, joined_cons, Text.bytes_append, Text.bytes_append, List.mapIdx_append,
      ih (n + l.text.width), bytes_code n l ls]
    simp only [Text.length_bytes, covers_commentsAt_cons]

/-! ### Blanking -/

lemma pairwise_commentRanges : (commentRanges s).Pairwise (·.stop ≤ ·.start) := by
  have hplace : (tokens s).Pairwise fun t u => t.stop ≤ u.start := pairwise_place
  refine hplace.filterMap _ fun t u hle r hr q hq => ?_
  simp only [Option.ite_none_right_eq_some, Option.some.injEq] at hr hq
  rw [← hr.2, ← hq.2]
  exact hle

lemma start_lt_stop_of_mem_commentRanges (h : r ∈ commentRanges s) : r.start < r.stop ∧ r.stop ≤ s.width := by
  obtain ⟨t, ht, -, rfl⟩ := mem_commentsAt.1 h
  exact ⟨start_lt_stop ht, (Token.isIn_of_mem_tokens ht).2.le_width⟩

/-- No comment comes about where one is blanked. -/
lemma not_isComment_of_mem_commentsBlanked (h : l ∈ lex (commentsBlanked s)) : l.kind.isComment = false := by
  rw [← map_lexeme_tokens] at h
  obtain ⟨t, ht, rfl⟩ := List.mem_map.1 h
  by_contra hc
  have hkept : t ∈ (tokens (commentsBlanked s)).filter (·.kind ≠ .blank) := by
    refine List.mem_filter.2 ⟨ht, decide_eq_true fun hk => ?_⟩
    rw [Token.lexeme_kind, hk] at hc
    exact hc rfl
  rw [tokens_commentsBlanked] at hkept
  rcases mem_uncommented hkept with hk | ⟨-, hk⟩
  · rw [Token.lexeme_kind, hk] at hc
    exact hc rfl
  · exact hc (by simpa using hk)

/-- **Blanking is exact.**  In any text, with a fault or without, the bytes of comments become spaces, but for line breaks, and
all other bytes stay; the ranges of the comments follow one another.  What comes out has no comment, and is blanked to itself. -/
theorem commentsBlanked_exact (s : Text) :
    (commentsBlanked s).bytes.length = s.bytes.length ∧
      (commentsBlanked s).bytes = s.bytes.mapIdx (fun n b =>
        if (∃ r ∈ commentRanges s, r.start ≤ n ∧ n < r.stop) ∧ b ≠ 10 then 32 else b) ∧
      (commentRanges s).Pairwise (·.stop ≤ ·.start) ∧ (∀ r ∈ commentRanges s, r.start < r.stop ∧ r.stop ≤ s.bytes.length) ∧
      commentRanges (commentsBlanked s) = [] ∧ commentsBlanked (commentsBlanked s) = commentsBlanked s := by
  have hbytes := bytes_codeOf 0 (lex s)
  rw [← commentsBlanked_eq, joined_lex, ← commentRanges_eq] at hbytes
  simp only [Nat.zero_add] at hbytes
  refine ⟨by simp [width_commentsBlanked], hbytes, pairwise_commentRanges, fun r hr => ?_, ?_,
    commentsBlanked_of_no_comment fun l hl => not_isComment_of_mem_commentsBlanked hl⟩
  · rw [Text.length_bytes]
    exact start_lt_stop_of_mem_commentRanges hr
  · refine List.filterMap_eq_nil_iff.2 fun t ht => ?_
    have := not_isComment_of_mem_commentsBlanked (lexeme_mem_lex ht)
    rw [Token.lexeme_kind] at this
    rw [this]
    rfl

/-- A block comment and a literal that are not closed: the slashes in the literal begin no comment, those on the next line do. -/
example : commentsBlanked "/* \"a // b\n1 // é" = "/* \"a // b\n1      " := by
  repeat rw [String.toList_ofList]
  decide +kernel

end Source

end RuleWeaver
