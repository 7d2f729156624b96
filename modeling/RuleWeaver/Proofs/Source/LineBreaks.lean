import RuleWeaver.Proofs.Source.Tokens

/-!
# Doubled line breaks

A line break that is put next to another one changes no code: raw strings and comments around it grow by one character, and
everything else stays the same (`stretched_lex`).
-/

namespace RuleWeaver.Text

variable {p : Char → Bool} {a b : Text}

lemma run_append_newline (hp : p '\n' = false) : run p (a ++ '\n' :: b) = run p a := by
  induction a with
  | nil => simp [run, hp]
  | cons c a ih =>
    by_cases h : p c
    · simpa [run, h] using ih
    · simp [run, h]

lemma run_append_of_all (h : a.all p) : run p (a ++ b) = a.length + run p b := by
  induction a with
  | nil => simp
  | cons c a ih =>
    simp only [List.all_cons, Bool.and_eq_true] at h
    have := ih h.2
    simp only [run, List.cons_append, List.takeWhile_cons, h.1, if_true, List.length_cons] at this ⊢
    omega

lemma run_append_of_not_all (h : ¬ a.all p) : run p (a ++ b) = run p a := by
  induction a with
  | nil => simp at h
  | cons c a ih =>
    by_cases hc : p c
    · have := ih (by simpa [hc] using h)
      simpa [run, hc] using this
    · simp [run, hc]

end RuleWeaver.Text

namespace RuleWeaver.Source

open Text (run run_append_newline run_append_of_all run_append_of_not_all run_le_length)

variable {c mark : Char} {a b : Text}

lemma quoted_append_newline : quoted mark (a ++ '\n' :: b) = quoted mark a := by
  fun_induction quoted mark a with
  | case1 => simp [quoted]
  | case2 => simp [quoted]
  | case3 => simp [quoted]
  | case4 d s hn ih => simp [quoted_escape hn, ih]
  | case5 s h₁ h₂ h₃ => simp [quoted]
  | case6 s h₁ h₂ h₃ h₄ =>
    have hm : mark ≠ '\\' := by
      intro hm
      subst hm
      rcases s with _ | ⟨d, s⟩
      · exact h₂ rfl rfl
      · exact h₃ d s rfl rfl
    simp [quoted_cons hm, h₄]
  | case7 d s h₁ h₂ h₃ h₄ h₅ ih =>
    have hd : d ≠ '\\' := by
      intro hd
      rcases s with _ | ⟨e, s⟩
      · exact h₂ hd rfl
      · exact h₃ e s hd rfl
    simp [quoted_cons hd, h₄, h₅, ih]

lemma commentEnd?_append_newline :
    commentEnd? (a ++ '\n' :: b) = (commentEnd? a).or ((commentEnd? b).map (· + (a.length + 1))) := by
  induction a with
  | nil => simp [commentEnd?_cons, commentEnd?]
  | cons d a ih =>
    rw [List.cons_append, commentEnd?_cons, commentEnd?_cons, ih]
    have hhead : (a ++ '\n' :: b).head? = some '/' ↔ a.head? = some '/' := by
      rcases a with _ | ⟨e, a⟩ <;> simp
    simp only [hhead]
    split
    · rfl
    · cases commentEnd? a <;> simp [Function.comp_def, Nat.add_assoc]

/-- Whether a literal or comment at the beginning of a text goes on behind the next part. -/
def goesOn (c : Char) (a : Text) : Bool :=
  (c = '\x60' && a.all (· ≠ '\x60')) || (c = '/' && a.head? = some '*' && (commentEnd? a.tail).isNone)

lemma isPrefixOf_append_newline : ['.', '.'].isPrefixOf (a ++ '\n' :: b) = ['.', '.'].isPrefixOf a := by
  rcases a with _ | ⟨d, _ | ⟨e, a⟩⟩ <;> simp [List.isPrefixOf]

lemma munchSlash_append_newline (h : goesOn '/' a = false) : munchSlash (a ++ '\n' :: b) = munchSlash a := by
  have hop : ∀ t : Text, run isOperatorChar (t ++ '\n' :: b) = run isOperatorChar t :=
    fun t => run_append_newline rfl
  rcases a with _ | ⟨d, a⟩
  · rfl
  by_cases h₁ : d = '/'
  · subst h₁
    rw [List.cons_append, munchSlash_slash, munchSlash_slash, ← List.cons_append, run_append_newline rfl]
  by_cases h₂ : d = '*'
  · subst h₂
    have hsome : (commentEnd? a).isSome := by simpa [goesOn] using h
    obtain ⟨n, hn⟩ := Option.isSome_iff_exists.1 hsome
    have hop' := hop ('*' :: a)
    rw [List.cons_append] at hop'
    simp only [munchSlash, List.cons_append, commentEnd?_append_newline, hn, hop', Option.some_or]
  · rw [List.cons_append, munchSlash_other h₁ h₂, munchSlash_other h₁ h₂, ← List.cons_append, hop]

lemma munch_append_newline (h : goesOn c a = false) : munch c (a ++ '\n' :: b) = munch c a := by
  cases munchForm c with
  | blank hc hm | number hc hm => rw [hm, hm, run_append_newline rfl]
  | word hc hm => rw [hm, hm, run_append_newline rfl, List.take_append_of_le_length run_le_length]
  | single k hk hm => rw [hm, hm]
  | quoted k hk hm => rw [hm, hm, munchQuoted, munchQuoted, quoted_append_newline]
  | raw hc hm =>
    subst hc
    have hall : ¬ a.all (· ≠ '\x60') := by
      simpa [goesOn] using h
    have hlt : run (· ≠ '\x60') a < a.length := by
      refine Nat.lt_of_le_of_ne run_le_length fun e => hall ?_
      exact Text.run_eq_length_iff.1 e
    rw [hm, hm, munchRaw, munchRaw, run_append_of_not_all hall]
    simp only [hlt, if_true, List.length_append]
    rw [if_pos (by omega)]
  | dot hc hm => rw [hm, hm, isPrefixOf_append_newline]
  | slash hc hm =>
    subst hc
    rw [hm, hm, munchSlash_append_newline h]
  | operator hc hm =>
    have hop : run isOperatorChar (a ++ '\n' :: b) = run isOperatorChar a := run_append_newline rfl
    simp only [hm, munchOperator, hop, List.take_append_of_le_length run_le_length]

/-! ### What a doubled line break changes -/

/-- The second list is the first one with one more line break: by itself next to another one, or inside a lexeme. -/
inductive Stretched : List Lexeme → List Lexeme → Prop
  | atEnd {l : Lexeme} (hl : l.kind = .newline) : Stretched [] [l]
  | here {l : Lexeme} (hl : l.kind = .newline) (ls : List Lexeme) : Stretched (l :: ls) (l :: l :: ls)
  | inside {l l' : Lexeme} (hk : l.kind = l'.kind) (hl : l.kind = .rawString ∨ l.kind = .blockComment ∨ l.kind = .stray)
      (ls : List Lexeme) : Stretched (l :: ls) (l' :: ls)
  | behind (l : Lexeme) {xs ys : List Lexeme} : Stretched xs ys → Stretched (l :: xs) (l :: ys)

lemma munchRaw_append (h : a.all (· ≠ '\x60')) : munchRaw (a ++ b) = ((munchRaw b).1, a.length + (munchRaw b).2) := by
  simp only [munchRaw, run_append_of_all h, List.length_append, Nat.add_lt_add_iff_left]
  split <;> simp [Nat.add_assoc]

lemma munchSlash_goesOn (h : (commentEnd? a).isNone) :
    munchSlash ('*' :: (a ++ '\n' :: b)) =
      match commentEnd? b with
      | some n => (.blockComment, a.length + 1 + n + 1)
      | none => (.operator, run isOperatorChar ('*' :: a)) := by
  have hop : run isOperatorChar ('*' :: (a ++ '\n' :: b)) = run isOperatorChar ('*' :: a) :=
    run_append_newline (a := '*' :: a) rfl
  have hle : run isOperatorChar ('*' :: a) ≤ a.length + 1 := run_le_length
  rw [Option.isNone_iff_eq_none] at h
  simp only [munchSlash, commentEnd?_append_newline, h, hop]
  cases commentEnd? b with
  | none => rfl
  | some n =>
    simp only [Option.map_some, Option.none_or]
    rw [if_neg (by omega), Nat.add_comm n]

/-- The first lexeme of a text with a doubled line break: either it ends before the line break and stays the same, or the
line break is inside and it grows. -/
lemma munch_doubled (c : Char) (a b : Text) :
    (munch c (a ++ '\n' :: '\n' :: b) = munch c (a ++ '\n' :: b) ∧ (munch c (a ++ '\n' :: b)).2 ≤ a.length) ∨
      ∃ k n, (k = .rawString ∨ k = .blockComment ∨ k = .stray) ∧
        munch c (a ++ '\n' :: b) = (k, a.length + 1 + n) ∧
        munch c (a ++ '\n' :: '\n' :: b) = (k, a.length + 2 + n) := by
  by_cases h : goesOn c a
  · simp only [goesOn, Bool.or_eq_true, Bool.and_eq_true, decide_eq_true_eq] at h
    rcases h with ⟨rfl, ha⟩ | ⟨⟨rfl, ha⟩, ha'⟩
    · right
      have hm : ∀ y, munch '\x60' y = munchRaw y := fun _ => rfl
      have hb : munchRaw ('\n' :: b) = ((munchRaw b).1, 1 + (munchRaw b).2) := munchRaw_append (a := ['\n']) rfl
      have hb' : munchRaw ('\n' :: '\n' :: b) = ((munchRaw b).1, 2 + (munchRaw b).2) :=
        munchRaw_append (a := ['\n', '\n']) rfl
      refine ⟨(munchRaw b).1, (munchRaw b).2, ?_, ?_, ?_⟩
      · rcases munchRaw_fst (u := b) with h | h <;> simp [h]
      · rw [hm, munchRaw_append ha, hb, Nat.add_assoc]
      · rw [hm, munchRaw_append ha, hb', Nat.add_assoc]
    · obtain ⟨d, rfl⟩ : ∃ d, a = '*' :: d := by
        rcases a with _ | ⟨e, d⟩
        · simp at ha
        · exact ⟨d, by simpa using ha⟩
      rw [List.tail_cons] at ha'
      have hm : ∀ y, munch '/' y = munchSlash y := fun _ => rfl
      have hb : commentEnd? ('\n' :: b) = (commentEnd? b).map (· + 1) := by
        rw [commentEnd?_cons, if_neg (by simp)]
      rw [hm, hm, List.cons_append, List.cons_append, munchSlash_goesOn ha', munchSlash_goesOn ha', hb]
      cases commentEnd? b with
      | none =>
        left
        exact ⟨rfl, run_le_length⟩
      | some n =>
        right
        refine ⟨.blockComment, n, by simp, ?_, ?_⟩ <;>
        · simp only [Option.map_some, Prod.mk.injEq, List.length_cons, true_and]
          omega
  · left
    have h' : goesOn c a = false := by simpa using h
    rw [munch_append_newline h', munch_append_newline h']
    exact ⟨rfl, munch_le⟩

/-- **Doubling a line break.** -/
theorem stretched_lex (a b : Text) : Stretched (lex (a ++ '\n' :: b)) (lex (a ++ '\n' :: '\n' :: b)) := by
  induction h : a.length using Nat.strongRecOn generalizing a with
  | ind n ih =>
    subst h
    rcases a with _ | ⟨c, a⟩
    · simp only [List.nil_append, lex_newline]
      exact .here rfl _
    · rcases munch_doubled c a b with ⟨h, hle⟩ | ⟨k, n, hk, h, h'⟩
      · obtain ⟨k, u, y, ha, hu⟩ : ∃ k u y, a = u ++ y ∧ munch c (a ++ '\n' :: b) = (k, u.length) :=
          ⟨_, a.take _, a.drop _, (List.take_append_drop _ _).symm, by rw [List.length_take, Nat.min_eq_left hle]⟩
        subst ha
        rw [hu] at h
        rw [List.append_assoc] at hu h
        rw [List.cons_append, List.cons_append, List.append_assoc, List.append_assoc, lex_cons hu, lex_cons h]
        exact .behind _ (ih y.length (by rw [List.length_cons, List.length_append]; omega) y rfl)
      · rw [List.cons_append, List.cons_append, lex, lex, h, h']
        have hd : (a ++ '\n' :: b).drop (a.length + 1 + n) = b.drop n := by
          rw [Nat.add_assoc, ← List.drop_drop, List.drop_left' rfl, Nat.add_comm, List.drop_succ_cons]
        have hd' : (a ++ '\n' :: '\n' :: b).drop (a.length + 2 + n) = b.drop n := by
          rw [Nat.add_assoc, ← List.drop_drop, List.drop_left' rfl, Nat.add_comm, List.drop_succ_cons, List.drop_succ_cons]
        simp only [hd, hd']
        exact .inside (by rfl) hk _

lemma munch_before_end (c : Char) (a : Text) :
    munch c (a ++ ['\n']) = munch c a ∨
      munch c a = (.stray, a.length) ∧ munch c (a ++ ['\n']) = (.stray, a.length + 1) := by
  by_cases h : goesOn c a
  · simp only [goesOn, Bool.or_eq_true, Bool.and_eq_true, decide_eq_true_eq] at h
    rcases h with ⟨rfl, ha⟩ | ⟨⟨rfl, ha⟩, ha'⟩
    · right
      have hm : ∀ y, munch '\x60' y = munchRaw y := fun _ => rfl
      have h₀ := munchRaw_append (b := []) ha
      have h₁ := munchRaw_append (b := ['\n']) ha
      rw [List.append_nil] at h₀
      exact ⟨by rw [hm, h₀]; rfl, by rw [hm, h₁]; rfl⟩
    · left
      obtain ⟨d, rfl⟩ : ∃ d, a = '*' :: d := by
        rcases a with _ | ⟨e, d⟩
        · simp at ha
        · exact ⟨d, by simpa using ha⟩
      rw [List.tail_cons] at ha'
      have hm : ∀ y, munch '/' y = munchSlash y := fun _ => rfl
      have hnone : commentEnd? d = none := Option.isNone_iff_eq_none.1 ha'
      rw [hm, hm, List.cons_append, munchSlash_goesOn ha']
      simp [commentEnd?, munchSlash, hnone]
  · left
    exact munch_append_newline (by simpa using h)

/-- **A line break at the end.** -/
theorem stretched_lex_end (a : Text) : Stretched (lex a) (lex (a ++ ['\n'])) := by
  induction h : a.length using Nat.strongRecOn generalizing a with
  | ind n ih =>
    subst h
    rcases a with _ | ⟨c, a⟩
    · simp only [List.nil_append, lex_newline, lex_nil]
      exact .atEnd rfl
    · rcases munch_before_end c a with h | ⟨h, h'⟩
      · obtain ⟨k, u, y, rfl, hu⟩ := exists_munch c a
        rw [hu] at h
        rw [List.append_assoc] at h
        rw [List.cons_append, List.append_assoc, lex_cons hu, lex_cons h]
        exact .behind _ (ih y.length (by rw [List.length_cons, List.length_append]; omega) y rfl)
      · rw [List.cons_append, lex, lex, h, h']
        have hd : (a ++ ['\n']).drop (a.length + 1) = [] := List.drop_eq_nil_of_le (by simp)
        simp only [hd, List.drop_length]
        exact .inside (by rfl) (.inr (.inr rfl)) _

section

variable {xs ys : List Lexeme}

lemma Stretched.all_isSound (h : Stretched xs ys) : xs.all Lexeme.isSound = ys.all Lexeme.isSound := by
  induction h with
  | atEnd hl => simp [Lexeme.isSound, hl]
  | here hl ls => simp
  | inside hk hl ls =>
    rcases hl with h | h | h <;> simp [Lexeme.isSound, ← hk, h]
  | behind l _ ih => simp [ih]

lemma Stretched.isBalanced {stack : List Kind} (h : Stretched xs ys) : isBalanced stack xs = isBalanced stack ys := by
  induction h generalizing stack with
  | atEnd hl => simp [Source.isBalanced, hl, Kind.isOpen, Kind.isClose]
  | here hl ls => simp [Source.isBalanced, hl, Kind.isOpen, Kind.isClose]
  | inside hk hl ls => simp only [Source.isBalanced, hk]
  | behind l _ ih => simp only [Source.isBalanced, ih]

end

end RuleWeaver.Source
