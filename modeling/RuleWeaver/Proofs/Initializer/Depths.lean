import RuleWeaver.Proofs.Initializer.Variables

/-!
# Depths

Statements, arguments and headers are cut where no bracket is open.  What is solid (`IsSolid`), such as a group, is never cut.
-/

namespace RuleWeaver

open Source

variable {n depth : Nat} {k k' o c : Kind} {ks ks' stack : List Kind} {ls : List Lexeme} {t open_ close : Token}
  {ts rest current : List Token}

/-- The number of brackets that are open behind tokens of certain classes. -/
def depthAfter (n : Nat) (ks : List Kind) : Nat := ks.foldl Kind.depthBehind n

/-- Whether a class is absent outside brackets. -/
def isEnclosed (k : Kind) : Nat → List Kind → Bool
  | _, [] => true
  | n, k' :: ks => (k' ≠ k || n ≠ 0) && isEnclosed k (k'.depthBehind n) ks

@[simp] lemma depthAfter_nil : depthAfter n [] = n := rfl

@[simp] lemma depthAfter_cons : depthAfter n (k :: ks) = depthAfter (k.depthBehind n) ks := rfl

lemma depthAfter_append : depthAfter n (ks ++ ks') = depthAfter (depthAfter n ks) ks' := List.foldl_append

lemma isEnclosed_append : isEnclosed k n (ks ++ ks') = (isEnclosed k n ks && isEnclosed k (depthAfter n ks) ks') := by
  induction ks generalizing n with
  | nil => rfl
  | cons k' ks ih => rw [List.cons_append, isEnclosed, isEnclosed, ih, Bool.and_assoc, depthAfter_cons]

/-- Whether tokens of certain classes can stand anywhere without a token of the class `k` outside their own brackets. -/
def IsSolid (k : Kind) (ks : List Kind) : Prop := ∀ n, depthAfter n ks = n ∧ isEnclosed k n ks

namespace IsSolid

lemma nil : IsSolid k [] := fun _ => ⟨rfl, rfl⟩

lemma append (h : IsSolid k ks) (h' : IsSolid k ks') : IsSolid k (ks ++ ks') := by
  intro n
  rw [depthAfter_append, isEnclosed_append, (h n).1, (h' n).1, (h n).2, (h' n).2]
  exact ⟨rfl, rfl⟩

lemma single (hk : k' ≠ k) (ho : k'.isOpen = false) (hc : k'.isClose = false) : IsSolid k [k'] := by
  intro n
  simp [depthAfter, isEnclosed, Kind.depthBehind, ho, hc, hk]

lemma cons (hk : k' ≠ k) (ho : k'.isOpen = false) (hc : k'.isClose = false) (h : IsSolid k ks) : IsSolid k (k' :: ks) :=
  (single hk ho hc).append h

end IsSolid

/-- Brackets that match leave the depth. -/
lemma depthAfter_of_isBalanced (h : isBalanced stack ls) : depthAfter (n + stack.length) (ls.map (·.kind)) = n := by
  induction ls generalizing stack with
  | nil =>
    obtain rfl : stack = [] := by simpa [isBalanced] using h
    rfl
  | cons l ls ih =>
    simp only [isBalanced] at h
    rw [List.map_cons, depthAfter_cons, Kind.depthBehind]
    split at h
    · next ho => simpa [ho, ← Nat.add_assoc] using ih h
    · next ho =>
      split at h
      · next hc =>
        cases stack with
        | nil => cases h
        | cons k₀ stack =>
          rw [Bool.and_eq_true] at h
          simpa [ho, hc, ← Nat.add_assoc] using ih h.2
      · next hc => simpa [ho, hc] using ih h

/-- Within brackets they lie above the depth at which they are all closed. -/
lemma isEnclosed_of_isBalanced (h : isBalanced stack ls) : isEnclosed k (n + 1 + stack.length) (ls.map (·.kind)) := by
  induction ls generalizing stack with
  | nil => rfl
  | cons l ls ih =>
    simp only [isBalanced] at h
    rw [List.map_cons, isEnclosed, Kind.depthBehind]
    split at h
    · next ho =>
      have := ih h
      rw [List.length_cons, ← Nat.add_assoc] at this
      simpa [ho] using this
    · next ho =>
      split at h
      · next hc =>
        cases stack with
        | nil => cases h
        | cons k₀ stack =>
          rw [Bool.and_eq_true] at h
          have := ih h.2
          simpa [ho, hc, ← Nat.add_assoc] using this
      · next hc => simpa [ho, hc] using ih h

/-- A group is solid. -/
lemma IsSolid.group (ho : o.isOpen) (hc : c.isClose) (hk : k.isOpen = false) (hk' : k.isClose = false) (h : isBalanced [] ls) :
    IsSolid k (o :: (ls.map (·.kind) ++ [c])) := by
  intro n
  have hok : o ≠ k := by
    rintro rfl
    rw [ho] at hk
    cases hk
  have hck : c ≠ k := by
    rintro rfl
    rw [hc] at hk'
    cases hk'
  have hco : c.isOpen = false := Kind.isOpen_of_isClose hc
  have hdepth : depthAfter (n + 1) (ls.map (·.kind)) = n + 1 := depthAfter_of_isBalanced h
  have hinside : isEnclosed k (n + 1) (ls.map (·.kind)) := isEnclosed_of_isBalanced h
  have hbehind : o.depthBehind n = n + 1 := by simp [Kind.depthBehind, ho]
  rw [depthAfter_cons, isEnclosed, hbehind, depthAfter_append, isEnclosed_append, hdepth, hinside]
  simp [isEnclosed, Kind.depthBehind, hc, hco, hok, hck]

/-! ### What is cut at depths -/

lemma splitArguments_cons : Statement.splitArguments n current (t :: ts) =
    if t.kind = .comma ∧ n = 0 then current :: Statement.splitArguments n [] ts
    else Statement.splitArguments (t.kind.depthBehind n) (current ++ [t]) ts := rfl

lemma splitArguments_append (h : isEnclosed .comma n (ts.map (·.kind))) : Statement.splitArguments n current (ts ++ rest) =
    Statement.splitArguments (depthAfter n (ts.map (·.kind))) (current ++ ts) rest := by
  induction ts generalizing n current with
  | nil => simp
  | cons t ts ih =>
    rw [List.map_cons, isEnclosed, Bool.and_eq_true] at h
    have hcomma : ¬ (t.kind = .comma ∧ n = 0) := by
      rintro ⟨hk, rfl⟩
      simp [hk] at h
    rw [List.cons_append, splitArguments_cons, if_neg hcomma, ih h.2, List.append_assoc]
    rfl

lemma splitHeader?_append (h : isEnclosed .semi n (ts.map (·.kind))) : Statement.splitHeader? n (ts ++ rest) =
    (Statement.splitHeader? (depthAfter n (ts.map (·.kind))) rest).map fun (a, b) => (ts ++ a, b) := by
  induction ts generalizing n with
  | nil => simp
  | cons t ts ih =>
    rw [List.map_cons, isEnclosed, Bool.and_eq_true] at h
    have hsemi : ¬ (t.kind.depthBehind n = 0 ∧ t.kind = .semi) := by
      rintro ⟨hdepth, hk⟩
      rw [hk, Kind.depthBehind] at hdepth
      simp_all [Kind.isOpen, Kind.isClose]
    rw [List.cons_append, splitHeader?_cons, if_neg hsemi, ih h.2, List.map_cons, depthAfter_cons, Option.map_map]
    rfl

lemma closingIndex?_cons_of_isOpen (ho : t.kind.isOpen) :
    Statement.closingIndex? n (t :: ts) = (Statement.closingIndex? (n + 1) ts).map (· + 1) := by
  simp [Statement.closingIndex?, ho]

lemma closingIndex?_cons_of_isClose (hc : t.kind.isClose) :
    Statement.closingIndex? (n + 2) (t :: ts) = (Statement.closingIndex? (n + 1) ts).map (· + 1) := by
  simp [Statement.closingIndex?, hc, Kind.isOpen_of_isClose hc]

lemma closingIndex?_cons_of_unbracketed (ho : ¬ t.kind.isOpen) (hc : ¬ t.kind.isClose) :
    Statement.closingIndex? n (t :: ts) = (Statement.closingIndex? n ts).map (· + 1) := by
  simp [Statement.closingIndex?, ho, hc]

lemma closingIndex?_append (h : isBalanced stack (ts.map Token.lexeme)) :
    Statement.closingIndex? (n + 1 + stack.length) (ts ++ rest) = (Statement.closingIndex? (n + 1) rest).map (· + ts.length) := by
  induction ts generalizing stack with
  | nil =>
    obtain rfl : stack = [] := by simpa [isBalanced] using h
    simp
  | cons t ts ih =>
    simp only [List.map_cons, isBalanced, Token.lexeme_kind] at h
    rw [List.cons_append]
    have hsum : ∀ x : Option Nat, (x.map (· + ts.length)).map (· + 1) = x.map (· + (t :: ts).length) := by
      intro x
      cases x <;> simp [Nat.add_assoc]
    by_cases ho : t.kind.isOpen
    · simp only [ho, if_true] at h
      have := ih h
      rw [List.length_cons, ← Nat.add_assoc] at this
      rw [closingIndex?_cons_of_isOpen ho, this, hsum]
    by_cases hc : t.kind.isClose
    · simp only [ho, hc, if_true, if_false, Bool.false_eq_true] at h
      cases stack with
      | nil => cases h
      | cons k₀ stack =>
        rw [Bool.and_eq_true] at h
        have hdepth : n + 1 + (k₀ :: stack).length = n + stack.length + 2 := by
          rw [List.length_cons]
          omega
        rw [hdepth, closingIndex?_cons_of_isClose hc, Nat.add_right_comm, ih h.2, hsum]
    · simp only [ho, hc, if_false, Bool.false_eq_true] at h
      rw [closingIndex?_cons_of_unbracketed ho hc, ih h, hsum]

lemma isGroup_of_isBalanced (ho : open_.kind.isOpen) (hc : close.kind.isClose) (h : isBalanced [] (ts.map Token.lexeme)) :
    Statement.isGroup (open_ :: (ts ++ [close])) := by
  have hinside : Statement.closingIndex? 1 (ts ++ [close]) = (Statement.closingIndex? 1 [close]).map (· + ts.length) :=
    closingIndex?_append h
  have hclose : Statement.closingIndex? 1 [close] = some 0 := by
    simp [Statement.closingIndex?, Kind.isOpen_of_isClose hc, hc]
  simp [Statement.isGroup, closingIndex?_cons_of_isOpen ho, hinside, hclose]

/-! ### Where a body is cut -/

/-- Whether tokens of certain classes go on as one statement: no line break outside brackets stands behind a token that can
end it.  `ending` tells whether the token before can. -/
def isUnbroken (depth : Nat) (ending : Bool) : List Kind → Bool
  | [] => true
  | k :: ks =>
    if k.isSignificant then isUnbroken (k.depthBehind depth) k.endsStatement ks
    else !(k = .newline && depth = 0 && ending) && isUnbroken depth ending ks

/-- The tokens that carry meaning. -/
def codeTokens (ts : List Token) : List Token := ts.filter (·.kind.isSignificant)

@[simp] lemma codeTokens_append : codeTokens (ts ++ rest) = codeTokens ts ++ codeTokens rest := List.filter_append ..

lemma opensHeader_append (h : current ≠ []) : Statement.opensHeader (current ++ ts) = Statement.opensHeader current := by
  rw [Statement.opensHeader, Statement.opensHeader, List.head?_append_of_ne_nil current h]

/-- Tokens that go on as one statement are added to it.  It has a header, or they have no semicolon outside brackets. -/
lemma splitBody_append (h : isUnbroken depth (current.getLast?.any (·.kind.endsStatement)) (ts.map (·.kind)))
    (hhead : current = [] → ∀ t ∈ (codeTokens ts).head?, t.kind ≠ .semi)
    (hsemi : Statement.opensHeader (current ++ codeTokens ts) ∨ isEnclosed .semi depth ((codeTokens ts).map (·.kind))) :
    Statement.splitBody depth current ((ts ++ rest).filter (·.kind ≠ .blank)) =
      Statement.splitBody (depthAfter depth ((codeTokens ts).map (·.kind))) (current ++ codeTokens ts) (rest.filter (·.kind ≠ .blank)) := by
  induction ts generalizing depth current with
  | nil => simp [codeTokens]
  | cons t ts ih =>
    rw [List.map_cons, isUnbroken] at h
    rw [List.cons_append]
    by_cases hsig : t.kind.isSignificant
    · have hblank : t.kind ≠ .blank := by
        rintro hk
        rw [hk] at hsig
        cases hsig
      have hcode : codeTokens (t :: ts) = t :: codeTokens ts := List.filter_cons_of_pos hsig
      rw [if_pos hsig] at h
      rw [hcode, List.map_cons, isEnclosed, Bool.and_eq_true] at hsemi
      rw [hcode] at hhead ⊢
      -- a semicolon would end the statement
      have hgoes : ¬ (t.kind = .semi ∧ depth = 0 ∧ ¬ Statement.opensHeader current) := by
        rintro ⟨hk, rfl, hheader⟩
        by_cases hnil : current = []
        · exact hhead hnil t rfl hk
        · rcases hsemi with hopens | ⟨hsemi, -⟩
          · rw [opensHeader_append hnil] at hopens
            exact hheader hopens
          · simp [hk] at hsemi
      have happend : current ++ t :: codeTokens ts = (current ++ [t]) ++ codeTokens ts := by simp
      rw [List.filter_cons_of_pos (by simpa using hblank), Statement.splitBody_token hsig hgoes, happend, List.map_cons, depthAfter_cons]
      refine ih (by simpa using h) (by simp) ?_
      rw [← happend]
      exact hsemi.imp_right And.right
    · have hsig := Bool.eq_false_iff.2 hsig
      have hcode : codeTokens (t :: ts) = codeTokens ts := List.filter_cons_of_neg (by simp [hsig])
      rw [hsig, if_neg (by simp), Bool.and_eq_true, Bool.not_eq_true'] at h
      rw [hcode] at hhead hsemi ⊢
      rw [Statement.splitBody_pass hsig (by simpa using h.1), ih h.2 hhead hsemi]

/-- The first line break behind a statement ends it. -/
lemma splitBody_newline (hends : current.getLast?.any (·.kind.endsStatement))
    (h : (rest.filter (·.kind.isCounted)).head?.any (·.kind = .newline)) :
    Statement.splitBody 0 current (rest.filter (·.kind ≠ .blank)) =
      current :: Statement.splitBody 0 [] (rest.filter (·.kind ≠ .blank)) := by
  induction rest with
  | nil => cases h
  | cons t ts ih =>
    by_cases hcounted : t.kind.isCounted
    · have hk : t.kind = .newline := by simpa [hcounted] using h
      rw [List.filter_cons_of_pos (by simp [hk])]
      simp [Statement.splitBody, hk, Kind.isComment, hends]
    · have hnot : t.kind.isSignificant = false ∧ t.kind ≠ .newline := by
        simpa [Kind.isCounted] using hcounted
      rw [List.filter_cons_of_neg (by exact hcounted)] at h
      rw [Statement.splitBody_pass hnot.1 (by simp [hnot.2]), Statement.splitBody_pass hnot.1 (by simp [hnot.2]), ih h]

/-- Behind the last statement there is nothing. -/
lemma splitBody_gap (h : ∀ t ∈ ts, t.kind.isSignificant = false) : Statement.splitBody 0 [] (ts.filter (·.kind ≠ .blank)) = [] := by
  induction ts with
  | nil => rfl
  | cons t ts ih =>
    obtain ⟨ht, hts⟩ := List.forall_mem_cons.1 h
    rw [Statement.splitBody_pass ht (by simp), ih hts]

end RuleWeaver
