import RuleWeaver.Proofs.Outcomes
import RuleWeaver.Proofs.Source.Lexing

/-!
# Tokens and their lexemes

What does not depend on where tokens stand: `tokenize` succeeds exactly on texts whose lexemes are sound and whose brackets
match (`tokenize_eq_ok_iff`), and both can be told from the lexemes alone.
-/

namespace RuleWeaver.Source

variable {s : Text} {l : Lexeme} {ls xs ys zs : List Lexeme} {n : Nat} {ts : List Token} {stack : List Kind}

/-- The lexeme of a token. -/
def Token.lexeme (t : Token) : Lexeme := ⟨t.kind, t.text⟩

@[simp] lemma Token.lexeme_kind (t : Token) : t.lexeme.kind = t.kind := rfl

@[simp] lemma Token.lexeme_text (t : Token) : t.lexeme.text = t.text := rfl

@[simp] lemma place_nil : place n [] = [] := rfl

@[simp] lemma place_cons : place n (l :: ls) = ⟨l.kind, l.text, n⟩ :: place (n + l.text.width) ls := rfl

@[simp] lemma place_append : place n (xs ++ ys) = place n xs ++ place (n + (joined xs).width) ys := by
  induction xs generalizing n with
  | nil => simp
  | cons l xs ih => simp [ih, Nat.add_assoc]

@[simp] lemma map_lexeme_place : (place n ls).map Token.lexeme = ls := by
  induction ls generalizing n with
  | nil => rfl
  | cons l ls ih => simp [Token.lexeme, ih]

@[simp] lemma map_lexeme_tokens : (tokens s).map Token.lexeme = lex s := map_lexeme_place

lemma lexeme_mem_lex {t : Token} (h : t ∈ tokens s) : t.lexeme ∈ lex s := by
  rw [← map_lexeme_tokens (s := s)]
  exact List.mem_map_of_mem h

/-! ### Faults -/

lemma text_ne_nil (h : l ∈ lex s) : l.text ≠ [] := by
  obtain ⟨xs, ys, e⟩ := List.append_of_mem h
  have h' : lex (joined (l :: ys)) = l :: ys := lex_joined_right e
  obtain ⟨c, u, y, -, -, ht, -⟩ := lex_cons_inv h'
  simp [ht]

lemma fault?_eq_none_iff {t : Token} (h : t.text ≠ []) : t.fault? = none ↔ t.lexeme.isSound := by
  obtain ⟨k, s, o⟩ := t
  fun_cases Token.fault? ⟨k, s, o⟩ with
  | case1 h₁ | case2 h₁ => simp_all [Lexeme.isSound, Token.lexeme]
  | case3 | case4 | case5 | case6 => simp_all [Lexeme.isSound, Token.lexeme]
  | case7 h₁ h₂ h₃ h₄ h₅ =>
    have hk : k ≠ .stray := by
      intro hk
      rcases s with _ | ⟨c, s⟩
      · exact h rfl
      · exact h₅ c s hk rfl
    have hk' : k ≠ .operator := h₁
    simp [Lexeme.isSound, Token.lexeme, hk, hk']

lemma findSome?_fault_eq_none_iff :
    ((tokens s).findSome? fun t => t.fault?.map (t.start, ·)) = none ↔ isWhole s := by
  have hne : ∀ t ∈ tokens s, t.text ≠ [] := fun t ht => text_ne_nil (lexeme_mem_lex ht)
  rw [List.findSome?_eq_none_iff, isWhole_iff, ← map_lexeme_tokens]
  simp only [Option.map_eq_none_iff, List.mem_map, forall_exists_index, and_imp, forall_apply_eq_imp_iff₂]
  exact forall₂_congr fun t ht => fault?_eq_none_iff (hne t ht)

/-! ### Brackets -/

/-- Whether the brackets among lexemes match, given the classes of those that are open, innermost first. -/
def isBalanced : List Kind → List Lexeme → Bool
  | stack, [] => stack.isEmpty
  | stack, l :: ls =>
    if l.kind.isOpen then isBalanced (l.kind :: stack) ls
    else if l.kind.isClose then
      match stack with
      | k :: stack => k.closer? = some l.kind && isBalanced stack ls
      | [] => false
    else isBalanced stack ls

lemma unmatched?_eq_none_iff {open_ : List Token} :
    unmatched? open_ ts = none ↔ isBalanced (open_.map (·.kind)) (ts.map Token.lexeme) := by
  induction ts generalizing open_ with
  | nil => cases open_ <;> simp [unmatched?, isBalanced]
  | cons t ts ih =>
    rw [List.map_cons]
    by_cases ho : t.kind.isOpen
    · rcases open_ with _ | ⟨o, open_⟩ <;> simp only [unmatched?, isBalanced, Token.lexeme_kind, ho, if_true] <;> exact ih
    by_cases hc : t.kind.isClose
    · rcases open_ with _ | ⟨o, open_⟩
      · simp [unmatched?, isBalanced, ho, hc]
      · by_cases h : o.kind.closer? = some t.kind
        · simpa [unmatched?, isBalanced, ho, hc, h] using ih
        · simp [unmatched?, isBalanced, ho, hc, h]
    · rcases open_ with _ | ⟨o, open_⟩ <;>
        simp only [unmatched?, isBalanced, Token.lexeme_kind, ho, hc, if_false, Bool.false_eq_true] <;> exact ih

lemma isBalanced_filter {p : Lexeme → Bool} (hp : ∀ l, !p l → !l.kind.isOpen && !l.kind.isClose) :
    isBalanced stack (ls.filter p) = isBalanced stack ls := by
  induction ls generalizing stack with
  | nil => rfl
  | cons l ls ih =>
    by_cases h : p l
    · rw [List.filter_cons_of_pos h]
      simp only [isBalanced, ih]
    · have h' := hp l (by simpa using h)
      simp only [Bool.and_eq_true, Bool.not_eq_true'] at h'
      rw [List.filter_cons_of_neg h, ih]
      simp [isBalanced, h'.1, h'.2]

/-- Brackets that match by themselves may be left out. -/
lemma isBalanced_append (h : isBalanced [] xs) : isBalanced stack (xs ++ ys) = isBalanced stack ys := by
  suffices key : ∀ inner, isBalanced inner xs → isBalanced (inner ++ stack) (xs ++ ys) = isBalanced stack ys from
    key [] h
  clear h
  induction xs with
  | nil =>
    intro inner h
    rcases inner with _ | ⟨k, inner⟩
    · rfl
    · simp [isBalanced] at h
  | cons l xs ih =>
    intro inner h
    simp only [isBalanced, List.cons_append] at h ⊢
    split
    · next ho =>
      rw [if_pos ho] at h
      exact ih _ h
    next ho =>
    rw [if_neg ho] at h
    split
    · next hc =>
      rw [if_pos hc] at h
      rcases inner with _ | ⟨k, inner⟩
      · simp at h
      · simp only [Bool.and_eq_true, decide_eq_true_eq] at h
        simp [h.1, ih _ h.2]
    · next hc =>
      rw [if_neg hc] at h
      exact ih _ h

lemma isBalanced_of_unbracketed (h : ∀ l ∈ xs, l.kind.isOpen = false ∧ l.kind.isClose = false) : isBalanced [] xs := by
  induction xs with
  | nil => rfl
  | cons l xs ih =>
    obtain ⟨ho, hc⟩ := h l List.mem_cons_self
    simpa [isBalanced, ho, hc] using ih fun m hm => h m (List.mem_cons_of_mem _ hm)

/-- Whether brackets match does not depend on what they hold that matches in the same way. -/
lemma isBalanced_congr (h : ∀ stack, isBalanced stack ys = isBalanced stack zs) :
    isBalanced stack (xs ++ ys) = isBalanced stack (xs ++ zs) := by
  induction xs generalizing stack with
  | nil => exact h stack
  | cons l xs ih => simp only [List.cons_append, isBalanced, ih]

/-! ### Code -/

/-- Lexemes without blanks, line breaks and comments. -/
def significant (ls : List Lexeme) : List Lexeme := ls.filter (·.kind.isSignificant)

@[simp] lemma significant_nil : significant [] = [] := rfl

@[simp] lemma significant_append : significant (xs ++ ys) = significant xs ++ significant ys := List.filter_append ..

lemma significant_cons_pos (h : l.kind.isSignificant) : significant (l :: ls) = l :: significant ls := List.filter_cons_of_pos h

lemma significant_cons_neg (h : l.kind.isSignificant = false) : significant (l :: ls) = significant ls :=
  List.filter_cons_of_neg (by simp [h])

lemma significant_eq_nil (h : ∀ l ∈ ls, l.kind.isSignificant = false) : significant ls = [] :=
  List.filter_eq_nil_iff.2 fun l hl => by simp [h l hl]

lemma significant_eq_self (h : ∀ l ∈ ls, l.kind.isSignificant) : significant ls = ls := List.filter_eq_self.2 h

lemma isBalanced_significant_eq : isBalanced stack (significant ls) = isBalanced stack ls :=
  isBalanced_filter fun l hl => by
    revert hl
    cases l.kind <;> decide

/-! ### Well-formed texts -/

/-- **What is well formed.**  A text has tokens if its lexemes are sound and its brackets match. -/
theorem tokenize_eq_ok_iff :
    tokenize s = .ok ts ↔ isWhole s ∧ isBalanced [] (lex s) ∧ ts = (tokens s).filter (·.kind ≠ .blank) := by
  have hkept : isBalanced [] (((tokens s).filter (·.kind ≠ .blank)).map Token.lexeme) = isBalanced [] (lex s) := by
    have h := List.filter_map (f := Token.lexeme) (l := tokens s) (p := fun l => decide (l.kind ≠ .blank))
    rw [map_lexeme_tokens] at h
    rw [show ((tokens s).filter (·.kind ≠ .blank)).map Token.lexeme = (lex s).filter (·.kind ≠ .blank) from h.symm]
    refine isBalanced_filter fun l hl => ?_
    have : l.kind = .blank := by simpa using hl
    simp [this, Kind.isOpen, Kind.isClose]
  have hmatch := @unmatched?_eq_none_iff ((tokens s).filter (·.kind ≠ .blank)) []
  rw [List.map_nil, hkept] at hmatch
  have hfault := findSome?_fault_eq_none_iff (s := s)
  unfold tokenize
  dsimp only
  split
  · next e =>
    rw [← hfault, e]
    simp
  · next e =>
    split
    · next t fault e' =>
      rw [← hmatch, e']
      simp
    · next e' =>
      rw [← hfault, ← hmatch, e, e', Except.ok.injEq]
      simp only [true_and]
      exact eq_comm

end RuleWeaver.Source
