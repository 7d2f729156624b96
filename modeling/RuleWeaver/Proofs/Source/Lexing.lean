import RuleWeaver.Source.Brackets
import Mathlib.Tactic.Lemma
import Mathlib.Tactic.Common
import Mathlib.Data.List.Basic

/-!
# Lexemes in context

When the lexemes of a text are also lexemes of a longer one.  A sound lexeme is the first of a text exactly if it is one by
itself and the rest is separate from it (`munch_append_iff`), so lexemes can be cut out of a text
(`lex_joined_left`, `lex_joined_right`, `lex_joined_mid`) and texts put together (`lex_append`).
-/

namespace RuleWeaver.Text

variable {p : Char → Bool} {u y : Text}

lemma run_append_eq_length_iff : run p (u ++ y) = u.length ↔ u.all p ∧ y.head?.all (fun c => !p c) := by
  induction u with
  | nil =>
    cases y with
    | nil => simp [run]
    | cons c y => by_cases h : p c <;> simp [run, h]
  | cons c u ih =>
    by_cases h : p c
    · simpa [run, h] using ih
    · simp [run, h]

lemma run_eq_length_iff : run p u = u.length ↔ u.all p := by
  simpa using run_append_eq_length_iff (p := p) (u := u) (y := [])

lemma run_le_length : run p u ≤ u.length := (List.takeWhile_sublist _).length_le

lemma lt_run_append_iff : u.length < run p (u ++ y) ↔ u.all p ∧ ¬ y.head?.all (fun c => !p c) := by
  induction u with
  | nil =>
    cases y with
    | nil => simp [run]
    | cons c y => by_cases h : p c <;> simp [run, h]
  | cons c u ih =>
    by_cases h : p c
    · simpa [run, h] using ih
    · simp [run, h]

end RuleWeaver.Text

namespace RuleWeaver.Source

open Text (run run_append_eq_length_iff run_eq_length_iff run_le_length lt_run_append_iff)

/-- Whether a lexeme has no fault by itself. -/
def Lexeme.isSound (l : Lexeme) : Bool :=
  l.kind ≠ .stray && !(l.kind = .operator && Text.hasPart "/*" l.text)

/-- Whether a lexeme stays the same when a text stands behind it. -/
def Lexeme.separates (l : Lexeme) (y : Text) : Bool :=
  match l.kind with
  | .blank => y.head?.all (!isBlank ·)
  | .lineComment => y.head?.all (· = '\n')
  | .blockComment => l.text.any (!isOperatorChar ·) || y.head?.all (!isOperatorChar ·)
  | .packageWord | .importWord | .typeWord | .funcWord | .varWord | .constWord | .structWord | .interfaceWord
  | .flowWord | .ident => y.head?.all (!isNameChar ·)
  | .number => y.head?.all (!isNumberChar ·)
  | .dot => !(['.', '.'].isPrefixOf y)
  | .star | .assign | .incDec | .operator => y.head?.all (!isOperatorChar ·)
  | _ => true

/-- Whether a lexeme of the class is a single character whatever follows it. -/
def Kind.isSingle : Kind → Bool
  | newline | lbrace | rbrace | lparen | rparen | lbracket | rbracket | comma | semi | stray => true
  | _ => false

/-- How the first lexeme of a text is told by its first character. -/
inductive MunchForm (c : Char) : Prop
  | blank (hc : isBlank c) (h : ∀ y, munch c y = (.blank, run isBlank y))
  | word (hc : isNameStart c) (h : ∀ y, munch c y = (wordKind (c :: y.take (run isNameChar y)), run isNameChar y))
  | number (hc : c.isDigit) (h : ∀ y, munch c y = (.number, run isNumberChar y))
  | single (k : Kind) (hk : k.isSingle) (h : ∀ y, munch c y = (k, 0))
  | quoted (k : Kind) (hk : k = .string ∨ k = .rune) (h : ∀ y, munch c y = munchQuoted k c y)
  | raw (hc : c = '\x60') (h : ∀ y, munch c y = munchRaw y)
  | dot (hc : c = '.') (h : ∀ y, munch c y = if ['.', '.'].isPrefixOf y then (.ellipsis, 2) else (.dot, 0))
  | slash (hc : c = '/') (h : ∀ y, munch c y = munchSlash y)
  | operator (hc : isOperatorChar c) (h : ∀ y, munch c y = munchOperator c y)

theorem munchForm (c : Char) : MunchForm c := by
  by_cases h₁ : isBlank c
  · exact .blank h₁ fun y => by simp [munch, h₁]
  by_cases h₂ : isNameStart c
  · exact .word h₂ fun y => by simp [munch, h₁, h₂]
  by_cases h₃ : c.isDigit
  · exact .number h₃ fun y => by simp [munch, h₁, h₂, h₃]
  by_cases h₄ : c = '\n' ∨ c = '{' ∨ c = '}' ∨ c = '(' ∨ c = ')' ∨ c = '[' ∨ c = ']' ∨ c = ',' ∨ c = ';'
  · rcases h₄ with rfl | rfl | rfl | rfl | rfl | rfl | rfl | rfl | rfl
    · exact .single .newline rfl fun _ => rfl
    · exact .single .lbrace rfl fun _ => rfl
    · exact .single .rbrace rfl fun _ => rfl
    · exact .single .lparen rfl fun _ => rfl
    · exact .single .rparen rfl fun _ => rfl
    · exact .single .lbracket rfl fun _ => rfl
    · exact .single .rbracket rfl fun _ => rfl
    · exact .single .comma rfl fun _ => rfl
    · exact .single .semi rfl fun _ => rfl
  by_cases h₅ : c = '\"'
  · exact .quoted .string (.inl rfl) fun y => by subst h₅; rfl
  by_cases h₆ : c = '\x27'
  · exact .quoted .rune (.inr rfl) fun y => by subst h₆; rfl
  by_cases h₇ : c = '\x60'
  · exact .raw h₇ fun y => by subst h₇; rfl
  by_cases h₈ : c = '.'
  · exact .dot h₈ fun y => by subst h₈; rfl
  by_cases h₉ : c = '/'
  · exact .slash h₉ fun y => by subst h₉; rfl
  simp only [not_or] at h₄
  by_cases h : isOperatorChar c
  · exact .operator h fun y => by simp [munch, h₁, h₂, h₃, h₄, h]
  · exact .single .stray rfl fun y => by simp [munch, h₁, h₂, h₃, h₄, h]

/-! ### The first lexeme -/

section Munch

variable {c mark : Char} {u y : Text} {k : Kind}

lemma quoted_cons (hc : c ≠ '\\') :
    quoted mark (c :: y) =
      if c = '\n' then (false, 0) else if c = mark then (true, 1) else ((quoted mark y).1, (quoted mark y).2 + 1) := by
  rw [quoted.eq_def]
  split <;> simp_all

lemma quoted_escape (hc : c ≠ '\n') :
    quoted mark ('\\' :: c :: y) = ((quoted mark y).1, (quoted mark y).2 + 2) := by
  simp [quoted]

lemma quoted_pos (h : (quoted mark y).1 = true) : 0 < (quoted mark y).2 := by
  fun_cases quoted mark y <;> simp_all [quoted]

lemma quoted_append_iff : quoted mark (u ++ y) = (true, u.length) ↔ quoted mark u = (true, u.length) := by
  fun_induction quoted mark u with
  | case1 =>
    have hpos : (quoted mark y).1 = true → 0 < (quoted mark y).2 := quoted_pos
    simp only [List.nil_append, List.length_nil, Prod.ext_iff]
    constructor
    · intro h
      have := hpos h.1
      omega
    · simp
  | case2 s => simp [quoted]
  | case3 =>
    cases y with
    | nil => simp [quoted]
    | cons d y => by_cases hd : d = '\n' <;> simp [quoted, hd]
  | case4 c s hn ih =>
    simpa [Prod.ext_iff, quoted_escape hn] using ih
  | case5 s h₁ h₂ h₃ => simp [quoted]
  | case6 s h₁ h₂ h₃ h₄ =>
    have hm : mark ≠ '\\' := by
      intro hm
      subst hm
      rcases s with _ | ⟨d, s⟩
      · exact h₂ rfl rfl
      · exact h₃ d s rfl rfl
    simp [quoted_cons hm, h₄]
  | case7 c s h₁ h₂ h₃ h₄ h₅ ih =>
    have hc : c ≠ '\\' := by
      intro hc
      rcases s with _ | ⟨d, s⟩
      · exact h₂ hc rfl
      · exact h₃ d s hc rfl
    simpa [Prod.ext_iff, quoted_cons hc, h₄, h₅] using ih

lemma commentEnd?_cons :
    commentEnd? (c :: y) = if c = '*' ∧ y.head? = some '/' then some 2 else (commentEnd? y).map (· + 1) := by
  rw [commentEnd?.eq_def]
  split
  · simp_all
  · rename_i d s h e
    obtain ⟨rfl, rfl⟩ := List.cons.inj e
    have : ¬ (c = '*' ∧ y.head? = some '/') := by
      rintro ⟨rfl, hy⟩
      rcases y with _ | ⟨d, y⟩
      · cases hy
      · cases hy
        exact h y rfl rfl
    rw [if_neg this]
  · simp_all

lemma commentEnd?_append {n : Nat} (hn : n ≤ u.length) : commentEnd? (u ++ y) = some n ↔ commentEnd? u = some n := by
  induction u generalizing n with
  | nil =>
    obtain rfl : n = 0 := by simpa using hn
    rcases y with _ | ⟨d, y⟩
    · rfl
    · rw [List.nil_append, commentEnd?_cons]
      split <;> simp [commentEnd?]
  | cons d u ih =>
    rw [List.cons_append, commentEnd?_cons, commentEnd?_cons]
    rcases n with _ | n
    · split <;> split <;> simp
    rcases u with _ | ⟨e, u⟩
    · obtain rfl : n = 0 := by simpa using hn
      have h₀ : ∀ s, commentEnd? s ≠ some 0 := by
        intro s
        rcases s with _ | ⟨a, s⟩
        · simp [commentEnd?]
        · rw [commentEnd?_cons]
          split <;> simp
      simp only [List.nil_append, List.head?_nil]
      split <;> simp [commentEnd?, h₀]
    · have := @ih n (by simpa using hn)
      by_cases h : d = '*' ∧ e = '/'
      · simp [h]
      · simpa [h] using this

lemma wordKind_separates (w : Text) : Lexeme.separates ⟨wordKind w, u⟩ y = y.head?.all (!isNameChar ·) := by
  fun_cases wordKind w <;> rfl

lemma munchSlash_star_eq {n : Nat} :
    munchSlash ('*' :: y) = (.blockComment, n + 1) ↔
      commentEnd? y = some n ∧ ¬ n + 1 < run isOperatorChar ('*' :: y) := by
  simp only [munchSlash]
  split
  · next m hm =>
    by_cases h : m + 1 < run isOperatorChar ('*' :: y)
    · simp only [if_pos h, Prod.mk.injEq, reduceCtorEq, false_and, hm, Option.some.injEq, false_iff]
      rintro ⟨rfl, h'⟩
      exact h' h
    · simp only [if_neg h, Prod.mk.injEq, true_and, hm, Option.some.injEq]
      constructor
      · intro e
        obtain rfl : m = n := by omega
        exact ⟨rfl, h⟩
      · rintro ⟨rfl, -⟩
        rfl
  · next hm => simp [hm]

lemma munchSlash_star_fst : (munchSlash ('*' :: y)).1 = .operator ∨ (munchSlash ('*' :: y)).1 = .blockComment := by
  simp only [munchSlash]
  split
  · split
    · exact .inl rfl
    · exact .inr rfl
  · exact .inl rfl

lemma munchSlash_slash : munchSlash ('/' :: y) = (.lineComment, run (· ≠ '\n') ('/' :: y)) := rfl

lemma munchSlash_other (h₁ : c ≠ '/') (h₂ : c ≠ '*') :
    munchSlash (c :: y) = (.operator, run isOperatorChar (c :: y)) := by
  unfold munchSlash
  split <;> simp_all

lemma munchSlash_fst :
    (munchSlash y).1 = .lineComment ∨ (munchSlash y).1 = .operator ∨ (munchSlash y).1 = .blockComment := by
  rcases y with _ | ⟨c, y⟩
  · exact .inr (.inl rfl)
  by_cases h₁ : c = '/'
  · exact .inl (by rw [h₁, munchSlash_slash])
  by_cases h₂ : c = '*'
  · exact .inr (by rw [h₂]; exact munchSlash_star_fst)
  · exact .inr (.inl (by rw [munchSlash_other h₁ h₂]))

lemma munchSlash_pos (hc : isOperatorChar c) : 0 < (munchSlash (c :: y)).2 := by
  have hrun : 0 < run isOperatorChar (c :: y) := by simp [run, hc]
  by_cases h₁ : c = '/'
  · subst h₁
    simp [munchSlash_slash, run]
  by_cases h₂ : c = '*'
  · subst h₂
    simp only [munchSlash]
    split
    · split
      · exact hrun
      · exact Nat.succ_pos _
    · exact hrun
  · rw [munchSlash_other h₁ h₂]
    exact hrun

lemma munchSlash_append_iff (hs : Lexeme.isSound ⟨k, '/' :: u⟩) :
    munchSlash (u ++ y) = (k, u.length) ↔
      munchSlash u = (k, u.length) ∧ Lexeme.separates ⟨k, '/' :: u⟩ y := by
  rcases u with _ | ⟨c, u⟩
  · rcases y with _ | ⟨d, y⟩
    · simp only [List.append_nil]
      refine ⟨fun h => ⟨h, ?_⟩, And.left⟩
      cases h
      rfl
    · by_cases hd : isOperatorChar d
      · have hpos := munchSlash_pos (y := y) hd
        constructor
        · intro h
          rw [List.nil_append] at h
          rw [h] at hpos
          exact absurd hpos (Nat.lt_irrefl _)
        · rintro ⟨h, h'⟩
          cases h
          simp [Lexeme.separates, hd] at h'
      · have h₁ : d ≠ '/' := by
          rintro rfl
          exact hd rfl
        have h₂ : d ≠ '*' := by
          rintro rfl
          exact hd rfl
        rw [List.nil_append, munchSlash_other h₁ h₂]
        simp only [run, List.takeWhile_cons, hd, munchSlash]
        constructor
        · intro h
          cases h
          simp [Lexeme.separates, hd]
        · exact And.left
  · by_cases h₁ : c = '/'
    · subst h₁
      rw [List.cons_append, munchSlash_slash, munchSlash_slash, ← List.cons_append]
      simp only [Prod.mk.injEq, run_append_eq_length_iff, run_eq_length_iff]
      constructor
      · rintro ⟨rfl, h, h'⟩
        exact ⟨⟨rfl, h⟩, by simpa [Lexeme.separates] using h'⟩
      · rintro ⟨⟨rfl, h⟩, h'⟩
        exact ⟨rfl, h, by simpa [Lexeme.separates] using h'⟩
    by_cases h₂ : c = '*'
    · subst h₂
      have hk : ∀ t, munchSlash ('*' :: t) = (k, u.length + 1) → k = .blockComment := by
        intro t ht
        rcases munchSlash_star_fst (y := t) with h | h
        · rw [ht] at h
          dsimp only at h
          subst h
          simp [Lexeme.isSound, Text.hasPart] at hs
        · rw [ht] at h
          exact h
      by_cases hb : k = .blockComment
      · subst hb
        rw [List.cons_append, List.length_cons, munchSlash_star_eq, munchSlash_star_eq, commentEnd?_append (Nat.le_refl _),
          ← List.cons_append, ← List.length_cons, lt_run_append_iff]
        have hrun : ¬ ('*' :: u).length < run isOperatorChar ('*' :: u) := Nat.not_lt.2 run_le_length
        have hall : ('/' :: '*' :: u).any (fun c => !isOperatorChar c) = !('*' :: u).all isOperatorChar := by
          have hslash : isOperatorChar '/' = true := rfl
          have hstar : isOperatorChar '*' = true := rfl
          simp [hslash, hstar, List.any_eq_not_all_not]
        simp only [hrun, not_false_eq_true, and_true, Lexeme.separates, hall]
        grind
      · constructor
        · intro h
          exact absurd (hk _ h) hb
        · intro h
          exact absurd (hk _ h.1) hb
    · rw [List.cons_append, munchSlash_other h₁ h₂, munchSlash_other h₁ h₂, ← List.cons_append]
      simp only [Prod.mk.injEq, run_append_eq_length_iff, run_eq_length_iff]
      constructor
      · rintro ⟨rfl, h, h'⟩
        exact ⟨⟨rfl, h⟩, h'⟩
      · rintro ⟨⟨rfl, h⟩, h'⟩
        exact ⟨rfl, h, h'⟩

lemma munchOperator_append_iff :
    munchOperator c (u ++ y) = (k, u.length) ↔
      munchOperator c u = (k, u.length) ∧ y.head?.all (!isOperatorChar ·) := by
  have htake : (u ++ y).take u.length = u := List.take_left' rfl
  have htake' : u.take u.length = u := List.take_length
  simp only [munchOperator, Prod.mk.injEq, run_append_eq_length_iff, run_eq_length_iff]
  constructor
  · rintro ⟨hk, h⟩
    have h₁ : run isOperatorChar (u ++ y) = u.length := run_append_eq_length_iff.2 h
    have h₂ : run isOperatorChar u = u.length := run_eq_length_iff.2 h.1
    rw [h₁, htake] at hk
    rw [h₂, htake']
    exact ⟨⟨hk, h.1⟩, h.2⟩
  · rintro ⟨⟨hk, h⟩, h'⟩
    have h₁ : run isOperatorChar (u ++ y) = u.length := run_append_eq_length_iff.2 ⟨h, h'⟩
    have h₂ : run isOperatorChar u = u.length := run_eq_length_iff.2 h
    rw [h₂, htake'] at hk
    rw [h₁, htake]
    exact ⟨hk, h, h'⟩

lemma munchOperator_fst :
    (munchOperator c u).1 = .star ∨ (munchOperator c u).1 = .assign ∨ (munchOperator c u).1 = .incDec ∨
      (munchOperator c u).1 = .operator := by
  simp only [munchOperator]
  split <;> simp

lemma munchQuoted_fst {kind : Kind} : (munchQuoted kind mark u).1 = kind ∨ (munchQuoted kind mark u).1 = .stray := by
  simp only [munchQuoted]
  split <;> simp

lemma munchRaw_fst : (munchRaw u).1 = .rawString ∨ (munchRaw u).1 = .stray := by
  simp only [munchRaw]
  split <;> simp

lemma munchQuoted_append_iff (hk : k ≠ .stray) {kind : Kind} :
    munchQuoted kind mark (u ++ y) = (k, u.length) ↔ munchQuoted kind mark u = (k, u.length) := by
  have key : ∀ t, munchQuoted kind mark t = (k, u.length) ↔ kind = k ∧ quoted mark t = (true, u.length) := by
    intro t
    simp only [munchQuoted, Prod.ext_iff]
    cases h : (quoted mark t).1 <;> simp [Ne.symm hk]
  rw [key, key, quoted_append_iff]

lemma munchRaw_append_iff (hk : k ≠ .stray) :
    munchRaw (u ++ y) = (k, u.length) ↔ munchRaw u = (k, u.length) := by
  have key : ∀ t : Text, u.length ≤ t.length → (munchRaw t = (k, u.length) ↔
      k = .rawString ∧ run (· ≠ '\x60') t + 1 = u.length) := by
    intro t ht
    simp only [munchRaw]
    split
    · simp only [Prod.mk.injEq, eq_comm]
    · next h =>
      simp only [Prod.mk.injEq, Ne.symm hk, false_and, false_iff, not_and]
      intro _ h'
      omega
  rw [key _ (by simp), key _ (Nat.le_refl _)]
  rcases List.eq_nil_or_concat u with rfl | ⟨v, d, rfl⟩
  · simp
  · simp only [List.concat_eq_append, List.append_assoc, List.cons_append, List.nil_append, List.length_append,
      List.length_cons, List.length_nil, Nat.add_right_cancel_iff, Nat.zero_add, run_append_eq_length_iff,
      List.head?_cons]

lemma munchWord_append_iff :
    (wordKind (c :: (u ++ y).take (run isNameChar (u ++ y))), run isNameChar (u ++ y)) = (k, u.length) ↔
      (wordKind (c :: u.take (run isNameChar u)), run isNameChar u) = (k, u.length) ∧
        Lexeme.separates ⟨k, c :: u⟩ y := by
  have htake : (u ++ y).take u.length = u := List.take_left' rfl
  simp only [Prod.mk.injEq]
  constructor
  · rintro ⟨hk, hn⟩
    obtain ⟨h₁, h₂⟩ := run_append_eq_length_iff.1 hn
    have hu : run isNameChar u = u.length := run_eq_length_iff.2 h₁
    rw [hn, htake] at hk
    subst hk
    rw [hu, List.take_length, wordKind_separates]
    exact ⟨⟨rfl, rfl⟩, h₂⟩
  · rintro ⟨⟨hk, hn⟩, h⟩
    rw [hn, List.take_length] at hk
    subst hk
    rw [wordKind_separates] at h
    have hn' : run isNameChar (u ++ y) = u.length := run_append_eq_length_iff.2 ⟨run_eq_length_iff.1 hn, h⟩
    rw [hn', htake]
    exact ⟨rfl, rfl⟩

lemma munchDot_append_iff :
    (if ['.', '.'].isPrefixOf (u ++ y) then (Kind.ellipsis, 2) else (.dot, 0)) = (k, u.length) ↔
      (if ['.', '.'].isPrefixOf u then (Kind.ellipsis, 2) else (.dot, 0)) = (k, u.length) ∧
        Lexeme.separates ⟨k, '.' :: u⟩ y := by
  have len : ∀ t : Text, (if ['.', '.'].isPrefixOf t then (Kind.ellipsis, 2) else (.dot, 0)) = (k, u.length) ↔
      (k = .ellipsis ∧ u.length = 2 ∧ ['.', '.'].isPrefixOf t) ∨
        (k = .dot ∧ u.length = 0 ∧ ¬ ['.', '.'].isPrefixOf t) := by
    intro t
    by_cases h : ['.', '.'].isPrefixOf t
    · rw [if_pos h, Prod.mk.injEq]
      constructor
      · rintro ⟨rfl, h'⟩
        exact .inl ⟨rfl, h'.symm, h⟩
      · rintro (⟨rfl, h', -⟩ | ⟨-, -, h'⟩)
        · exact ⟨rfl, h'.symm⟩
        · exact absurd h h'
    · rw [if_neg h, Prod.mk.injEq]
      constructor
      · rintro ⟨rfl, h'⟩
        exact .inr ⟨rfl, h'.symm, h⟩
      · rintro (⟨-, -, h'⟩ | ⟨rfl, h', -⟩)
        · exact absurd h' h
        · exact ⟨rfl, h'.symm⟩
  have dot : ∀ t, Lexeme.separates ⟨.dot, t⟩ y = true ↔ ¬ ['.', '.'].isPrefixOf y := by
    intro t
    show (!(['.', '.'].isPrefixOf y)) = true ↔ _
    cases ['.', '.'].isPrefixOf y <;> simp
  rw [len, len]
  constructor
  · rintro (⟨rfl, h, h'⟩ | ⟨rfl, h, h'⟩)
    · obtain ⟨d, e, rfl⟩ := List.length_eq_two.1 h
      exact ⟨.inl ⟨rfl, h, by simpa using h'⟩, rfl⟩
    · obtain rfl := List.length_eq_zero_iff.1 h
      exact ⟨.inr ⟨rfl, h, by simp⟩, (dot _).2 h'⟩
  · rintro ⟨⟨rfl, h, h'⟩ | ⟨rfl, h, -⟩, hy⟩
    · obtain ⟨d, e, rfl⟩ := List.length_eq_two.1 h
      exact .inl ⟨rfl, h, by simpa using h'⟩
    · obtain rfl := List.length_eq_zero_iff.1 h
      exact .inr ⟨rfl, h, (dot _).1 hy⟩

end Munch

/-- **Where a lexeme ends.**  A sound lexeme is the first one of a text exactly if it is one by itself and the rest of
the text is separate from it. -/
theorem munch_append_iff {c : Char} {u y : Text} {k : Kind} (hs : Lexeme.isSound ⟨k, c :: u⟩) :
    munch c (u ++ y) = (k, u.length) ↔ munch c u = (k, u.length) ∧ Lexeme.separates ⟨k, c :: u⟩ y := by
  have hk : k ≠ .stray := by
    rintro rfl
    simp [Lexeme.isSound] at hs
  have fixed : ∀ p : Kind × Nat, (∀ t y, Lexeme.separates ⟨p.1, t⟩ y = true) →
      (p = (k, u.length) ↔ p = (k, u.length) ∧ Lexeme.separates ⟨k, c :: u⟩ y = true) := by
    intro p h
    refine ⟨fun e => ⟨e, ?_⟩, And.left⟩
    subst e
    exact h _ _
  cases munchForm c with
  | blank hc h =>
    simp only [h, Prod.mk.injEq, run_append_eq_length_iff, run_eq_length_iff]
    constructor
    · rintro ⟨rfl, h, h'⟩
      exact ⟨⟨rfl, h⟩, h'⟩
    · rintro ⟨⟨rfl, h⟩, h'⟩
      exact ⟨rfl, h, h'⟩
  | word hc h =>
    rw [h, h]
    exact munchWord_append_iff
  | number hc h =>
    simp only [h, Prod.mk.injEq, run_append_eq_length_iff, run_eq_length_iff]
    constructor
    · rintro ⟨rfl, h, h'⟩
      exact ⟨⟨rfl, h⟩, h'⟩
    · rintro ⟨⟨rfl, h⟩, h'⟩
      exact ⟨rfl, h, h'⟩
  | single k' hk' h =>
    rw [h, h]
    refine fixed _ fun _ _ => ?_
    cases k' <;> first | rfl | cases hk'
  | quoted k' hk' h =>
    rw [h, h, munchQuoted_append_iff hk]
    refine fixed _ fun _ _ => ?_
    rcases (munchQuoted_fst : (munchQuoted k' c u).1 = k' ∨ _) with h | h <;> rw [h]
    · rcases hk' with rfl | rfl <;> rfl
    · rfl
  | raw hc h =>
    rw [h, h, munchRaw_append_iff hk]
    refine fixed _ fun _ _ => ?_
    rcases munchRaw_fst (u := u) with h | h <;> rw [h] <;> rfl
  | dot hc h =>
    subst hc
    rw [h, h]
    exact munchDot_append_iff
  | slash hc h =>
    subst hc
    rw [h, h]
    exact munchSlash_append_iff hs
  | operator hc h =>
    rw [h, h, munchOperator_append_iff]
    refine and_congr_right fun e => ?_
    have hk' : (munchOperator c u).1 = k := by rw [e]
    rcases munchOperator_fst (c := c) (u := u) with h | h | h | h <;> rw [← hk', h] <;> rfl

lemma munchSlash_of_operator (h : (munchSlash y).1 = .operator) : (munchSlash y).2 = run isOperatorChar y := by
  revert h
  unfold munchSlash
  dsimp only
  split
  · simp
  · split
    · split <;> simp
    · simp
  · simp

/-- What a lexeme without a fault consists of, by its class, its first character and the others. -/
inductive WholeForm (k : Kind) (c : Char) (u : Text) : Prop
  | blank (hk : k = .blank) (hc : isBlank c) (hu : u.all isBlank)
  | word (hk : k = wordKind (c :: u)) (hc : isNameStart c) (hu : u.all isNameChar)
      (h : ∀ y, munch c y = (wordKind (c :: y.take (run isNameChar y)), run isNameChar y))
  | number (hk : k = .number) (hc : c.isDigit) (hu : u.all isNumberChar)
  | single (hk : k.isSingle) (hu : u = [])
  | quoted (hk : k = .string ∨ k = .rune) (hu : quoted c u = (true, u.length)) (h : ∀ y, munch c y = munchQuoted k c y)
  | raw (hk : k = .rawString) (hc : c = '\x60') (hu : munchRaw u = (.rawString, u.length))
  | dot (hk : k = .dot) (hc : c = '.') (hu : u = [])
  | ellipsis (hk : k = .ellipsis) (hc : c = '.') (hu : u = ['.', '.'])
  | lineComment (hk : k = .lineComment) (hc : c = '/') (v : Text) (hu : u = '/' :: v) (hv : '\n' ∉ v)
  | blockComment (hk : k = .blockComment) (hc : c = '/') (v : Text) (hu : u = '*' :: v) (hv : commentEnd? v = some v.length)
  | operator (hk : k = .star ∨ k = .assign ∨ k = .incDec ∨ k = .operator) (hc : isOperatorChar c) (hu : u.all isOperatorChar)

lemma WholeForm.of_slash (hm : munchSlash u = (k, u.length)) : WholeForm k '/' u := by
  have operator : (munchSlash u).1 = .operator → WholeForm k '/' u := by
    intro h
    have hrun := munchSlash_of_operator h
    rw [hm] at h hrun
    exact .operator (.inr (.inr (.inr h))) rfl (run_eq_length_iff.1 hrun.symm)
  rcases u with _ | ⟨d, v⟩
  · exact operator rfl
  by_cases h₁ : d = '/'
  · subst h₁
    rw [munchSlash_slash] at hm
    obtain ⟨rfl, hrun⟩ := Prod.mk.inj hm
    refine .lineComment rfl rfl v rfl fun hmem => ?_
    have := List.all_eq_true.1 (run_eq_length_iff.1 hrun) '\n' (List.mem_cons_of_mem _ hmem)
    simp at this
  by_cases h₂ : d = '*'
  · subst h₂
    rcases munchSlash_star_fst (y := v) with h | h
    · exact operator h
    · obtain rfl : k = .blockComment := by rw [← h, hm]
      exact .blockComment rfl rfl v rfl (munchSlash_star_eq.1 hm).1
  · exact operator (by rw [munchSlash_other h₁ h₂])

/-- **A lexeme without a fault** that is a text by itself. -/
theorem wholeForm (hm : munch c u = (k, u.length)) (hk : k ≠ .stray) : WholeForm k c u := by
  cases munchForm c with
  | blank hc h =>
    obtain ⟨rfl, hrun⟩ := Prod.mk.inj ((h u).symm.trans hm)
    exact .blank rfl hc (run_eq_length_iff.1 hrun)
  | word hc h =>
    obtain ⟨rfl, hrun⟩ := Prod.mk.inj ((h u).symm.trans hm)
    exact .word (by rw [hrun, List.take_length]) hc (run_eq_length_iff.1 hrun) h
  | number hc h =>
    obtain ⟨rfl, hrun⟩ := Prod.mk.inj ((h u).symm.trans hm)
    exact .number rfl hc (run_eq_length_iff.1 hrun)
  | single k' hk' h =>
    obtain ⟨rfl, hlength⟩ := Prod.mk.inj ((h u).symm.trans hm)
    exact .single hk' (List.length_eq_zero_iff.1 hlength.symm)
  | quoted k' hk' h =>
    rw [h, munchQuoted] at hm
    obtain ⟨hkind, hlength⟩ := Prod.mk.inj hm
    by_cases hclosed : (quoted c u).1
    · rw [if_pos hclosed] at hkind
      subst hkind
      exact .quoted hk' (Prod.ext hclosed hlength) h
    · rw [if_neg hclosed] at hkind
      exact absurd hkind.symm hk
  | raw hc h =>
    rw [h] at hm
    obtain rfl : k = .rawString := by
      rcases munchRaw_fst (u := u) with e | e <;> rw [hm] at e
      · exact e
      · exact absurd e hk
    exact .raw rfl hc hm
  | dot hc h =>
    rw [h] at hm
    split at hm
    · next hp =>
      obtain ⟨rfl, hlength⟩ := Prod.mk.inj hm
      exact .ellipsis rfl hc ((List.isPrefixOf_iff_prefix.1 hp).eq_of_length hlength).symm
    · obtain ⟨rfl, hlength⟩ := Prod.mk.inj hm
      exact .dot rfl hc (List.length_eq_zero_iff.1 hlength.symm)
  | slash hc h =>
    subst hc
    exact .of_slash ((h u).symm.trans hm)
  | operator hc h =>
    rw [h] at hm
    refine .operator ?_ hc (run_eq_length_iff.1 (congrArg Prod.snd hm))
    have hfst := munchOperator_fst (c := c) (u := u)
    rwa [hm] at hfst

/-! ### Lexemes of a text that goes on -/

section Lex

variable {c : Char} {a u y z s : Text} {k : Kind} {l : Lexeme} {ls xs ys zs : List Lexeme}

/-- The text of several lexemes. -/
def joined (ls : List Lexeme) : Text := ls.flatMap Lexeme.text

@[simp] lemma joined_nil : joined [] = [] := rfl

@[simp] lemma joined_cons : joined (l :: ls) = l.text ++ joined ls := List.flatMap_cons

@[simp] lemma joined_append : joined (xs ++ ys) = joined xs ++ joined ys := List.flatMap_append

@[simp] lemma joined_lex : joined (lex s) = s := flatMap_text_lex s

/-- The lexeme that a character belongs to. -/
lemma exists_lexeme_at {b : Text} (h : joined ls = a ++ c :: b) :
    ∃ xs l ys p q, ls = xs ++ l :: ys ∧ l.text = p ++ c :: q ∧ a = joined xs ++ p ∧ b = q ++ joined ys := by
  induction ls generalizing a with
  | nil => simp at h
  | cons l ls ih =>
    rw [joined_cons] at h
    rcases List.append_eq_append_iff.1 h with ⟨a', rfl, ha⟩ | ⟨c', hl, hc⟩
    · obtain ⟨xs, m, ys, p, q, rfl, hm, rfl, rfl⟩ := ih ha
      exact ⟨l :: xs, m, ys, p, q, rfl, hm, by simp, rfl⟩
    · cases c' with
      | nil =>
        rw [List.nil_append] at hc
        obtain ⟨xs, m, ys, p, q, rfl, hm, hp, rfl⟩ := ih (a := []) hc.symm
        obtain ⟨hxs, rfl⟩ := List.append_eq_nil_iff.1 hp.symm
        refine ⟨l :: xs, m, ys, [], q, rfl, hm, ?_, rfl⟩
        rw [joined_cons, hxs, hl]
        simp
      | cons d c' =>
        obtain ⟨rfl, rfl⟩ := List.cons.inj hc
        exact ⟨[], l, ls, a, c', rfl, hl, rfl, rfl⟩

@[simp] lemma lex_nil : lex [] = [] := by rw [lex]

lemma commentEnd?_le {n : Nat} (h : commentEnd? y = some n) : n ≤ y.length := by
  induction y generalizing n with
  | nil => simp [commentEnd?] at h
  | cons d y ih =>
    rw [commentEnd?_cons] at h
    split at h
    · next hd =>
      cases h
      rcases y with _ | ⟨e, y⟩
      · cases hd.2
      · simp
    · obtain ⟨m, hm, rfl⟩ := Option.map_eq_some_iff.1 h
      have := ih hm
      simp only [List.length_cons]
      omega

lemma quoted_le {mark : Char} : (quoted mark y).2 ≤ y.length := by
  fun_induction quoted mark y <;> simp_all

lemma munchSlash_le : (munchSlash y).2 ≤ y.length := by
  unfold munchSlash
  dsimp only
  split
  · exact run_le_length
  · split
    · next n hn =>
      split
      · exact run_le_length
      · have := commentEnd?_le hn
        simp only [List.length_cons]
        omega
    · exact run_le_length
  · exact run_le_length

lemma munch_le : (munch c y).2 ≤ y.length := by
  cases munchForm c with
  | blank hc h | word hc h | number hc h =>
    rw [h]
    exact run_le_length
  | single k hk h =>
    rw [h]
    exact Nat.zero_le _
  | quoted k hk h =>
    rw [h]
    exact quoted_le
  | raw hc h =>
    rw [h, munchRaw]
    split
    · next h => exact h
    · exact run_le_length
  | dot hc h =>
    rw [h]
    split
    · next h => simpa using (List.isPrefixOf_iff_prefix.1 h).length_le
    · exact Nat.zero_le _
  | slash hc h =>
    rw [h]
    exact munchSlash_le
  | operator hc h =>
    rw [h]
    exact run_le_length

/-- The first lexeme of a text, with the characters it takes set apart. -/
lemma exists_munch (c : Char) (s : Text) : ∃ k u y, s = u ++ y ∧ munch c s = (k, u.length) :=
  ⟨(munch c s).1, s.take (munch c s).2, s.drop (munch c s).2, (List.take_append_drop _ _).symm, by
    rw [List.length_take, Nat.min_eq_left munch_le]⟩

lemma lex_cons (h : munch c (u ++ y) = (k, u.length)) : lex (c :: (u ++ y)) = ⟨k, c :: u⟩ :: lex y := by
  rw [lex, h]
  simp

lemma lex_cons_inv (h : lex s = l :: ls) :
    ∃ c u y, s = c :: (u ++ y) ∧ munch c (u ++ y) = (l.kind, u.length) ∧ l.text = c :: u ∧ lex y = ls := by
  rcases s with _ | ⟨c, s⟩
  · simp at h
  · obtain ⟨k, u, y, rfl, hm⟩ := exists_munch c s
    rw [lex_cons hm] at h
    obtain ⟨rfl, rfl⟩ := List.cons.inj h
    exact ⟨c, u, y, rfl, hm, rfl, rfl⟩

/-- The lexemes behind some lexemes of a text are the lexemes of their own text. -/
lemma lex_joined_right (h : lex s = xs ++ ys) : lex (joined ys) = ys := by
  induction xs generalizing s with
  | nil =>
    rw [List.nil_append] at h
    rw [← h, joined_lex]
  | cons l xs ih =>
    obtain ⟨c, u, y, rfl, -, -, hy⟩ := lex_cons_inv h
    exact ih hy

lemma separates_of_append (h : l.separates (y ++ z)) : l.separates y := by
  rcases y with _ | ⟨d, y⟩
  · unfold Lexeme.separates
    split <;> simp
  · revert h
    unfold Lexeme.separates
    split <;> simp only [List.cons_append, List.head?_cons, imp_self]
    rw [Bool.not_eq_true', Bool.not_eq_true', ← Bool.not_eq_true, ← Bool.not_eq_true, List.isPrefixOf_iff_prefix,
      List.isPrefixOf_iff_prefix, ← List.cons_append]
    exact fun h h' => h (h'.trans (List.prefix_append _ _))

/-- Sound lexemes at the beginning of a text are the lexemes of their own text. -/
lemma lex_joined_left (h : lex s = xs ++ ys) (hs : ∀ l ∈ xs, l.isSound) : lex (joined xs) = xs := by
  induction xs generalizing s with
  | nil => simp
  | cons l xs ih =>
    rw [List.cons_append] at h
    obtain ⟨c, u, y, rfl, hm, ht, hy⟩ := lex_cons_inv h
    obtain ⟨k, t⟩ := l
    obtain rfl : t = c :: u := ht
    have hy' : y = joined xs ++ joined ys := by rw [← joined_append, ← hy, joined_lex]
    rw [hy'] at hm
    have hsound := hs _ List.mem_cons_self
    obtain ⟨h₁, h₂⟩ := (munch_append_iff hsound).1 hm
    have hm' := (munch_append_iff hsound).2 ⟨h₁, separates_of_append h₂⟩
    rw [joined_cons, List.cons_append, lex_cons hm', ih hy fun l hl => hs l (List.mem_cons_of_mem _ hl)]

/-- Sound lexemes in the middle of a text are the lexemes of their own text. -/
lemma lex_joined_mid (h : lex s = xs ++ ys ++ zs) (hs : ∀ l ∈ ys, l.isSound) : lex (joined ys) = ys := by
  rw [List.append_assoc] at h
  exact lex_joined_left (lex_joined_right h) hs

lemma separates_append {d : Char} (h : l.separates (d :: y))
    (hdot : l.kind = .dot → d = '.' → y = [] → z.head? ≠ some '.') : l.separates (d :: y ++ z) := by
  by_cases hk : l.kind = .dot
  · have key : ∀ t, l.separates t = !(['.', '.'].isPrefixOf t) := by
      intro t
      unfold Lexeme.separates
      rw [hk]
    rw [key] at h ⊢
    rcases y with _ | ⟨e, y⟩
    · rcases z with _ | ⟨e, z⟩
      · simpa using h
      · have := hdot hk
        simp only [List.head?_cons, ne_eq, Option.some.injEq] at this
        simp only [List.cons_append, List.nil_append, List.isPrefixOf, Bool.and_true, Bool.not_eq_true',
          Bool.and_eq_false_iff, beq_eq_false_iff_ne]
        by_cases hd : d = '.'
        · exact .inr fun he => this hd trivial he.symm
        · exact .inl fun he => hd he.symm
    · simpa [List.isPrefixOf] using h
  · revert h
    unfold Lexeme.separates
    split <;> simp_all

lemma lex_text_of_mem (hl : l ∈ lex s) (hs : l.isSound) : lex l.text = [l] := by
  obtain ⟨xs, ys, h⟩ := List.append_of_mem hl
  have h' : lex s = xs ++ [l] ++ ys := by simpa using h
  simpa using lex_joined_mid h' (by simpa using hs)

lemma kind_ne_stray (hs : l.isSound) : l.kind ≠ .stray := by
  intro e
  simp [Lexeme.isSound, e] at hs

/-- A lexeme without a fault is read from its own text. -/
lemma exists_munch_of_mem (hl : l ∈ lex s) (hs : l.isSound) : ∃ c u, l.text = c :: u ∧ munch c u = (l.kind, u.length) := by
  obtain ⟨c, u, y, e, hm, ht, -⟩ := lex_cons_inv (lex_text_of_mem hl hs)
  obtain rfl : y = [] := by simpa [ht] using e
  exact ⟨c, u, ht, by rwa [List.append_nil] at hm⟩

/-- Whether no lexeme of a text has a fault by itself. -/
def isWhole (s : Text) : Bool := (lex s).all Lexeme.isSound

lemma isWhole_iff : isWhole s ↔ ∀ l ∈ lex s, l.isSound := List.all_eq_true

/-- Whether a text has certain lexemes, and none of them has a fault. -/
def IsLexed (ls : List Lexeme) : Prop := lex (joined ls) = ls ∧ ∀ l ∈ ls, l.isSound

lemma isLexed_lex (h : isWhole s) : IsLexed (lex s) := ⟨by rw [joined_lex], isWhole_iff.1 h⟩

lemma isLexed_of_lex (h : lex s = ls) (hs : isWhole s) : IsLexed ls := h ▸ isLexed_lex hs

lemma IsLexed.right {A B : List Lexeme} (h : IsLexed (A ++ B)) : IsLexed B :=
  ⟨lex_joined_right h.1, fun l hl => h.2 l (List.mem_append_right _ hl)⟩

lemma IsLexed.left {A B : List Lexeme} (h : IsLexed (A ++ B)) : IsLexed A :=
  ⟨lex_joined_left h.1 fun l hl => h.2 l (List.mem_append_left _ hl), fun l hl => h.2 l (List.mem_append_left _ hl)⟩

lemma IsLexed.isWhole (h : IsLexed ls) : isWhole (joined ls) := by
  rw [isWhole_iff, h.1]
  exact h.2

/-- Whether a text may stand behind a lexeme that ends another text.  A dot must not be followed by a dot, because a
third one could follow. -/
def Lexeme.precedes (l : Lexeme) (y : Text) : Bool := l.separates y && !(l.kind = .dot && y.head? = some '.')

/-- **Splitting at a boundary.**  Where the last lexeme of a whole text stays the same, the lexemes of a longer text are
those of its two parts. -/
theorem lex_append (ha : isWhole a) (hl : ∀ l ∈ (lex a).getLast?, l.precedes y) : lex (a ++ y) = lex a ++ lex y := by
  rw [isWhole_iff] at ha
  generalize hls : lex a = ls at ha hl
  induction ls generalizing a with
  | nil =>
    have : a = [] := by rw [← joined_lex (s := a), hls, joined_nil]
    simp [this]
  | cons l ls ih =>
    obtain ⟨c, u, v, rfl, hm, ht, hv⟩ := lex_cons_inv hls
    obtain ⟨k, t⟩ := l
    obtain rfl : t = c :: u := ht
    have hsound := ha _ List.mem_cons_self
    obtain ⟨h₁, h₂⟩ := (munch_append_iff hsound).1 hm
    have hsep : Lexeme.separates ⟨k, c :: u⟩ (v ++ y) := by
      rcases v with _ | ⟨d, v⟩
      · obtain rfl : ls = [] := by rw [← hv, lex_nil]
        have h := hl ⟨k, c :: u⟩ (by simp)
        rw [Lexeme.precedes, Bool.and_eq_true] at h
        exact h.1
      · refine separates_append h₂ ?_
        rintro - rfl rfl
        have hdot : lex ['.'] = [⟨.dot, ['.']⟩] := by
          simpa using lex_cons (c := '.') (k := .dot) (u := []) (y := []) (by rfl)
        rw [hdot] at hv
        have h := hl ⟨.dot, ['.']⟩ (by simp [← hv])
        rw [Lexeme.precedes, Bool.and_eq_true] at h
        simpa using h.2
    have hm' := (munch_append_iff hsound).2 ⟨h₁, hsep⟩
    rw [List.cons_append, List.append_assoc, lex_cons hm', ih hv (fun l h => ha l (List.mem_cons_of_mem _ h)) ?_,
      List.cons_append]
    intro l h
    apply hl
    rcases ls with _ | ⟨m, ls⟩
    · cases h
    · rwa [List.getLast?_cons_cons]

/-- A lexeme stays when what follows changes behind the next character, unless that is a dot. -/
lemma precedes_of_separates {d : Char} (hd : d ≠ '.') (h : l.separates (d :: y)) : l.precedes (d :: z) := by
  have hdot : ['.', '.'].isPrefixOf (d :: z) = false := by
    have : ('.' == d) = false := by simpa using Ne.symm hd
    simp [List.isPrefixOf, this]
  have hsep : l.separates (d :: z) := by
    revert h
    unfold Lexeme.separates
    cases l.kind <;> simp [hdot]
  have hhead : decide (List.head? (d :: z) = some '.') = false := by simpa using hd
  rw [Lexeme.precedes, hsep, hhead, Bool.and_false]
  rfl

/-- **Changing what follows.**  Lexemes stay when the text changes behind the next character, unless that is a dot. -/
theorem lex_joined_append {d : Char} (hd : d ≠ '.') (h : lex s = xs ++ ys) (hy : joined ys = d :: y)
    (hs : ∀ l ∈ xs, l.isSound) : lex (joined xs ++ d :: z) = xs ++ lex (d :: z) := by
  have hxs : IsLexed xs := ⟨lex_joined_left h hs, hs⟩
  rw [lex_append hxs.isWhole, hxs.1]
  intro l hl
  rw [hxs.1, Option.mem_def] at hl
  obtain ⟨xs', rfl⟩ := List.getLast?_eq_some_iff.1 hl
  rw [List.append_assoc, List.singleton_append] at h
  obtain ⟨c, u, v, e, hm, ht, hv⟩ := lex_cons_inv (lex_joined_right h)
  obtain ⟨k, t⟩ := l
  obtain rfl : t = c :: u := ht
  have hsep := ((munch_append_iff (hs _ (by simp))).1 hm).2
  rw [show v = d :: y by rw [← hy, ← hv, joined_lex]] at hsep
  exact precedes_of_separates hd hsep

lemma precedes_newline : l.precedes ('\n' :: y) := by
  unfold Lexeme.precedes Lexeme.separates
  split <;> simp [isBlank, isNameChar, isNameStart, isNumberChar, isOperatorChar, List.isPrefixOf]

@[simp] lemma lex_newline : lex ('\n' :: y) = ⟨.newline, ['\n']⟩ :: lex y := lex_cons (u := []) (by rfl)

lemma lex_comma : lex (',' :: y) = ⟨.comma, [',']⟩ :: lex y := lex_cons (u := []) (by rfl)

lemma lex_blank {b : Char} (hb : isBlank b) (hy : y.head?.all (!isBlank ·)) :
    lex (b :: y) = ⟨.blank, [b]⟩ :: lex y := by
  have hm : munch b y = (.blank, run isBlank y) := by simp [munch, hb]
  have hrun : run isBlank y = 0 := by
    rcases y with _ | ⟨d, y⟩
    · rfl
    · have hd : isBlank d = false := by simpa using hy
      simp [run, hd]
  rw [hrun] at hm
  simpa using lex_cons (u := []) hm

lemma lex_append_newline (ha : isWhole a) : lex (a ++ '\n' :: y) = lex a ++ ⟨.newline, ['\n']⟩ :: lex y := by
  rw [lex_append ha fun _ _ => precedes_newline, lex_newline]

lemma IsLexed.lex_append_newline (h : IsLexed ls) : lex (joined ls ++ '\n' :: y) = ls ++ ⟨.newline, ['\n']⟩ :: lex y := by
  rw [Source.lex_append_newline h.isWhole, h.1]

/-- Whether nothing behind a text changes how it is split. -/
def IsClosed (s : Text) : Prop := ∀ y, lex (s ++ y) = lex s ++ lex y

lemma isClosed_of_newline (ha : isWhole a) (hl : (lex a).getLast? = some ⟨.newline, ['\n']⟩) : IsClosed a := by
  intro y
  refine lex_append ha fun l h => ?_
  rw [hl] at h
  cases h
  rfl

/-- Lexemes that are known, in front of a text that leaves the last of them as it is. -/
lemma lex_append_of_eq (h : lex a = ls) (hs : ls.all Lexeme.isSound) (hl : ls.getLast?.all (·.precedes y)) :
    lex (a ++ y) = ls ++ lex y := by
  have ha : isWhole a := by rw [isWhole, h, hs]
  rw [lex_append ha, h]
  intro l hmem
  rw [h, Option.mem_def] at hmem
  simpa [hmem] using hl

end Lex

end RuleWeaver.Source
