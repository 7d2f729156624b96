import RuleWeaver.Proofs.Source.Lexing
import RuleWeaver.Unicode.Classes

/-!
# Lexemes of names

The lexemes of names, qualified or not, and what may stand behind them.
-/

namespace RuleWeaver.Source

variable {c : Char} {s y : Text} {l : Lexeme} {ls : List Lexeme}

/-- Whether lexemes of the class make up names and numbers. -/
def Kind.isWordlike : Kind → Bool
  | packageWord | importWord | typeWord | funcWord | varWord | constWord | structWord | interfaceWord | flowWord | ident
  | number | dot | ellipsis => true
  | _ => false

/-- The characters of qualified names. -/
def isPathChar (c : Char) : Bool := isNameChar c || c = '.'

lemma isNameChar_of_isWord (h : Unicode.isWord c) : isNameChar c := by
  unfold Unicode.isWord at h
  unfold isNameChar isNameStart
  split at h
  · rcases Bool.or_eq_true_iff.1 h with h | h
    · rcases Bool.or_eq_true_iff.1 h with h | h <;> simp [h]
    · simp_all
  · next hc =>
    have : (0x80 : Nat) ≤ c.toNat := Nat.le_of_not_lt hc
    simp [this]

lemma wordKind_isWordlike (w : Text) : (wordKind w).isWordlike := by
  fun_cases wordKind w <;> rfl

lemma ne_wordKind {k : Kind} (h : k.isWordlike = false) (w : Text) : k ≠ wordKind w := by
  rintro rfl
  rw [wordKind_isWordlike] at h
  cases h

namespace WholeForm

variable {k : Kind} {u : Text}

lemma of_blank (h : WholeForm .blank c u) : isBlank c ∧ u.all isBlank := by
  cases h with
  | blank _ hc hu => exact ⟨hc, hu⟩
  | word hk => exact absurd hk (ne_wordKind rfl _)
  | quoted hk | operator hk => simp at hk
  | number hk | single hk | raw hk | dot hk | ellipsis hk | lineComment hk | blockComment hk => cases hk

lemma of_blockComment (h : WholeForm .blockComment c u) : c = '/' ∧ ∃ v, u = '*' :: v ∧ commentEnd? v = some v.length := by
  cases h with
  | blockComment _ hc v hu hv => exact ⟨hc, v, hu, hv⟩
  | word hk => exact absurd hk (ne_wordKind rfl _)
  | quoted hk | operator hk => simp at hk
  | blank hk | number hk | single hk | raw hk | dot hk | ellipsis hk | lineComment hk => cases hk

lemma of_operator (h : WholeForm k c u) (hk : k = .star ∨ k = .assign ∨ k = .incDec ∨ k = .operator) :
    isOperatorChar c ∧ u.all isOperatorChar := by
  cases h with
  | operator _ hc hu => exact ⟨hc, hu⟩
  | word hk' => rcases hk with rfl | rfl | rfl | rfl <;> exact absurd hk' (ne_wordKind rfl _)
  | quoted hk' => rcases hk with rfl | rfl | rfl | rfl <;> simp at hk'
  | blank hk' | number hk' | single hk' | raw hk' | dot hk' | ellipsis hk' | lineComment hk' | blockComment hk' =>
    rcases hk with rfl | rfl | rfl | rfl <;> cases hk'

end WholeForm

lemma Lexeme.isSound_of_isWordlike (h : l.kind.isWordlike) : l.isSound := by
  unfold Lexeme.isSound
  revert h
  cases l.kind <;> simp [Kind.isWordlike]

lemma not_isBlank_of_isPathChar (hc : isPathChar c) : isBlank c = false := by
  by_contra hb
  simp only [isBlank, Bool.not_eq_false, decide_eq_true_eq] at hb
  rcases hb with rfl | rfl | rfl | rfl <;> exact absurd hc (by decide)

lemma munch_isWordlike (hc : isPathChar c) : (munch c s).1.isWordlike := by
  have hb := not_isBlank_of_isPathChar hc
  by_cases hs : isNameStart c
  · simp only [munch, hb, hs, Bool.false_eq_true, if_false, if_true]
    exact wordKind_isWordlike _
  by_cases hd : c.isDigit
  · simp only [munch, hb, hs, hd, Bool.false_eq_true, if_false, if_true]
    rfl
  have hdot : c = '.' := by simpa [isPathChar, isNameChar, hs, hd] using hc
  subst hdot
  show (if ['.', '.'].isPrefixOf s then (Kind.ellipsis, 2) else (Kind.dot, 0)).1.isWordlike = true
  split <;> rfl

/-- Names have only lexemes that make up names. -/
lemma isWordlike_of_mem_lex (hs : s.all isPathChar) (hl : l ∈ lex s) : l.kind.isWordlike := by
  fun_induction lex s with
  | case1 => cases hl
  | case2 c rest ih =>
    rw [List.all_cons, Bool.and_eq_true] at hs
    rcases List.mem_cons.1 hl with rfl | hl
    · exact munch_isWordlike hs.1
    · refine ih ?_ hl
      rw [List.all_eq_true] at hs ⊢
      exact fun d hd => hs.2 d (List.mem_of_mem_drop hd)

lemma precedes_of_isWordlike {d : Char} (h : l.kind.isWordlike) (hd : isPathChar d = false)
    (hn : isNumberChar d = false) : l.precedes (d :: y) := by
  have hdot : d ≠ '.' := by
    rintro rfl
    exact absurd hd (by decide)
  have hname : isNameChar d = false := by
    rw [isPathChar, Bool.or_eq_false_iff] at hd
    exact hd.1
  unfold Lexeme.precedes Lexeme.separates
  revert h
  cases l.kind <;> simp [Kind.isWordlike, hname, hn, hdot, Ne.symm hdot, List.isPrefixOf]

lemma isWhole_of_path (hs : s.all isPathChar) : isWhole s :=
  isWhole_iff.2 fun _ hl => Lexeme.isSound_of_isWordlike (isWordlike_of_mem_lex hs hl)

/-- A name has only characters of names. -/
lemma all_isPathChar_of_lex (hk : l.kind = .ident ∨ l.kind = .dot) (h : lex s = [l]) (ht : l.text = s) : s.all isPathChar := by
  obtain ⟨c, u, v, rfl, hm, htext, -⟩ := lex_cons_inv h
  obtain rfl : v = [] := by
    rw [ht] at htext
    simpa using htext
  rw [List.append_nil] at hm ⊢
  have hstray : l.kind ≠ .stray := by rcases hk with e | e <;> rw [e] <;> decide
  cases wholeForm hm hstray with
  | word _ hc hu h =>
    rw [List.all_cons, Bool.and_eq_true, isPathChar, isNameChar, hc]
    refine ⟨rfl, List.all_eq_true.2 fun d hd => ?_⟩
    rw [isPathChar, List.all_eq_true.1 hu d hd, Bool.true_or]
  | dot _ hc hu =>
    subst hc hu
    rfl
  | blank e | number e | raw e | ellipsis e | lineComment e | blockComment e => simp [e] at hk
  | single e hu => rcases hk with h | h <;> rw [h] at e <;> cases e
  | quoted e hu h => rcases e with e | e <;> simp [e] at hk
  | operator e hc hu => rcases e with e | e | e | e <;> simp [e] at hk

/-- Whether lexemes of the class are names or keywords. -/
def Kind.isWord : Kind → Bool
  | packageWord | importWord | typeWord | funcWord | varWord | constWord | structWord | interfaceWord | flowWord | ident => true
  | _ => false

/-- A name or keyword has the characters of names, and none stands directly behind it. -/
lemma word_of_lex (h : lex s = l :: ls) (hk : l.kind.isWord) :
    wordKind l.text = l.kind ∧ l.text.all isNameChar ∧ (joined ls).head?.all (!isNameChar ·) := by
  obtain ⟨x, u, y, -, hm, ht, rfl⟩ := lex_cons_inv h
  rw [joined_lex]
  have absurd_of_fst : ∀ {k : Kind}, (munch x (u ++ y)).1 = k → k.isWord = false → False := by
    rintro k rfl hfalse
    rw [hm] at hfalse
    rw [hfalse] at hk
    cases hk
  cases munchForm x with
  | word hc hmunch =>
    rw [hmunch] at hm
    obtain ⟨hkind, hrun⟩ := Prod.mk.inj hm
    rw [hrun, List.take_left, ← ht] at hkind
    obtain ⟨hall, hnext⟩ := Text.run_append_eq_length_iff.1 hrun
    refine ⟨hkind, ?_, hnext⟩
    rw [ht, List.all_cons, hall, Bool.and_true, isNameChar, decide_eq_true (Or.inl hc)]
  | blank hc hmunch | number hc hmunch => exact (absurd_of_fst (by rw [hmunch]) rfl).elim
  | single k hk' hmunch =>
    refine (absurd_of_fst (congrArg Prod.fst (hmunch _)) ?_).elim
    revert hk'
    cases k <;> simp [Kind.isSingle, Kind.isWord]
  | quoted k hk' hmunch =>
    rcases (munchQuoted_fst : (munchQuoted k x (u ++ y)).1 = k ∨ _) with e | e
    · rcases hk' with rfl | rfl <;> exact (absurd_of_fst (by rw [hmunch, e]) rfl).elim
    · exact (absurd_of_fst (by rw [hmunch, e]) rfl).elim
  | raw hc hmunch =>
    rcases munchRaw_fst (u := u ++ y) with e | e <;> exact (absurd_of_fst (by rw [hmunch, e]) rfl).elim
  | dot hc hmunch =>
    rw [hmunch] at hm
    split at hm
    · rw [← (Prod.mk.inj hm).1] at hk
      cases hk
    · rw [← (Prod.mk.inj hm).1] at hk
      cases hk
  | slash hc hmunch =>
    rcases munchSlash_fst (y := u ++ y) with e | e | e <;> exact (absurd_of_fst (by rw [hmunch, e]) rfl).elim
  | operator hc hmunch =>
    rcases munchOperator_fst (c := x) (u := u ++ y) with e | e | e | e <;>
      exact (absurd_of_fst (by rw [hmunch, e]) rfl).elim

/-- Behind a name goes what begins with none of its characters. -/
lemma lex_path_append {d : Char} (hs : s.all isPathChar) (hd : isPathChar d = false) (hn : isNumberChar d = false) :
    lex (s ++ d :: y) = lex s ++ lex (d :: y) :=
  lex_append (isWhole_of_path hs) fun _ hl =>
    precedes_of_isWordlike (isWordlike_of_mem_lex hs (List.mem_of_getLast? hl)) hd hn

end RuleWeaver.Source
