import Mathlib.Data.List.Forall2
import RuleWeaver.Proofs.Source.Reading

/-!
# Code that is alike

Two runs of tokens are alike (`Alike`) if they are the same but for offsets, for what raw literals stand for, and for what
stands between some braces outside all other brackets.  Readers that skip such braces as a whole tell them not apart.

* `Alike.group`: a group in front of one run stands in front of the other one too.
* `Agree`: two cursors in front of code that is alike, up to a statement end or to the end of the file.
-/

namespace RuleWeaver.Source

open Text (unquote)

variable {P : Text → Text → Prop} {a b : Text} {f : Bool} {m n : Nat} {k : Kind} {t u t₂ o o₂ close close₂ : Token}
  {ts us ts₂ us₂ inner inner₂ rest rest₂ e e₂ : List Token} {c c' c₂ : Cursor}

/-! ### Tokens -/

/-- Whether two texts are the same or related. -/
def Related (P : Text → Text → Prop) (a b : Text) : Prop := a = b ∨ P a b

@[simp] lemma related_eq_iff : Related Eq a b ↔ a = b := or_self_iff

/-- Whether two tokens are the same but for their offsets, and but for what they stand for if they are raw literals. -/
def Token.Like (P : Text → Text → Prop) (t u : Token) : Prop :=
  t.kind = u.kind ∧ (t.text = u.text ∨ t.kind = .rawString ∧ P (unquote t.text) (unquote u.text))

namespace Token.Like

lemma of_lexeme (h : t.lexeme = u.lexeme) : t.Like P u := ⟨congrArg Lexeme.kind h, .inl (congrArg Lexeme.text h)⟩

lemma text (h : t.Like P u) (hk : t.kind ≠ .rawString) : t.text = u.text := h.2.resolve_right fun h' => hk h'.1

lemma unquote (h : t.Like P u) : Related P (Text.unquote t.text) (Text.unquote u.text) :=
  h.2.imp (congrArg Text.unquote) And.right

end Token.Like

/-- Whether tokens are alike one by one. -/
def SameCode (P : Text → Text → Prop) (ts us : List Token) : Prop := List.Forall₂ (Token.Like P) ts us

namespace SameCode

lemma of_lexemes (h : ts.map Token.lexeme = us.map Token.lexeme) : SameCode P ts us := by
  induction ts generalizing us with
  | nil =>
    obtain rfl : us = [] := List.map_eq_nil_iff.1 h.symm
    exact .nil
  | cons t ts ih =>
    obtain ⟨u, us, rfl, hu, hus⟩ := List.map_eq_cons_iff.1 h.symm
    exact .cons (.of_lexeme hu.symm) (ih hus.symm)

lemma cons_inv (h : SameCode P (t :: ts) us) : ∃ u us', us = u :: us' ∧ t.Like P u ∧ SameCode P ts us' := by
  cases h with
  | cons h hs => exact ⟨_, _, rfl, h, hs⟩

lemma eq_nil (h : SameCode P [] us) : us = [] := List.forall₂_nil_left_iff.1 h

lemma kinds (h : SameCode P ts us) : ts.map (·.kind) = us.map (·.kind) := by
  induction h with
  | nil => rfl
  | cons h _ ih => rw [List.map_cons, List.map_cons, h.1, ih]

lemma length (h : SameCode P ts us) : ts.length = us.length := List.Forall₂.length_eq h

lemma getLast? (h : SameCode P ts us) : Option.Rel (Token.Like P) ts.getLast? us.getLast? := by
  induction h with
  | nil => exact .none
  | @cons t u ts us h hs ih =>
    cases hs with
    | nil => exact .some h
    | cons h' hs =>
      rw [List.getLast?_cons_cons, List.getLast?_cons_cons]
      exact ih

/-- Tokens that are picked by their class are alike. -/
lemma filter (p : Kind → Bool) (h : SameCode P ts us) : SameCode P (ts.filter (p ·.kind)) (us.filter (p ·.kind)) := by
  induction h with
  | nil => exact .nil
  | cons h _ ih =>
    rw [List.filter_cons, List.filter_cons, ← h.1]
    split
    · exact .cons h ih
    · exact ih

lemma takeWhile (p : Kind → Bool) (h : SameCode P ts us) : SameCode P (ts.takeWhile (p ·.kind)) (us.takeWhile (p ·.kind)) := by
  induction h with
  | nil => exact .nil
  | cons h _ ih =>
    rw [List.takeWhile_cons, List.takeWhile_cons, ← h.1]
    split
    · exact .cons h ih
    · exact .nil

lemma any (p : Kind → Bool) (h : SameCode P ts us) : ts.any (p ·.kind) = us.any (p ·.kind) := by
  have := congrArg (List.any · p) h.kinds
  simpa only [List.any_map, Function.comp_def] using this

lemma dropLast (h : SameCode P ts us) : SameCode P ts.dropLast us.dropLast := by
  induction h with
  | nil => exact .nil
  | cons h hs ih =>
    cases hs with
    | nil => exact .nil
    | cons => exact .cons h ih

end SameCode

/-! ### Groups -/

/-- Whether tokens are what stands in a group, with the bracket that closes it. -/
def Closes (inner : List Token) (close : Token) : Prop := cutGroup? 0 (inner ++ [close]) = some (inner, close, [])

/-- Where a group ends depends on the classes of its tokens alone. -/
lemma cutGroup?_of_kinds (h : cutGroup? n (inner ++ close :: rest) = some (inner, close, rest))
    (hi : inner.map (·.kind) = inner₂.map (·.kind)) (hk : close.kind = close₂.kind) :
    cutGroup? n (inner₂ ++ close₂ :: rest₂) = some (inner₂, close₂, rest₂) := by
  induction inner generalizing n inner₂ with
  | nil =>
    obtain rfl : inner₂ = [] := List.map_eq_nil_iff.1 hi.symm
    rw [List.nil_append, cutGroup?_close] at h ⊢
    rwa [← hk]
  | cons t inner ih =>
    obtain ⟨t₂, inner₂, rfl, ht, hi⟩ := List.map_eq_cons_iff.1 hi.symm
    rw [List.cons_append, cutGroup?_inner] at h ⊢
    rw [ht]
    exact ⟨h.1, ih h.2 hi.symm⟩

lemma Closes.cut (h : Closes inner close) : cutGroup? 0 (inner ++ close :: rest) = some (inner, close, rest) :=
  cutGroup?_of_kinds h rfl rfl

lemma closes_of_cut (h : cutGroup? 0 (inner ++ close :: rest) = some (inner, close, rest)) : Closes inner close :=
  cutGroup?_of_kinds h rfl rfl

/-! ### Runs of tokens -/

/-- Whether tokens are alike: one by one, but for what stands between some braces where no bracket is open and which do not
belong to a struct.  `n` counts the brackets that are open, and `f` tells whether `struct` stands in front. -/
inductive Alike (P : Text → Text → Prop) : Nat → Bool → List Token → List Token → Prop
  | nil {n : Nat} {f : Bool} : Alike P n f [] []
  | cons {n : Nat} {f : Bool} {t u : Token} {ts us : List Token} (h : t.Like P u) (hs : Alike P (t.kind.depthBehind n) (t.kind = .structWord) ts us) :
      Alike P n f (t :: ts) (u :: us)
  | braces {o o₂ close close₂ : Token} {inner inner₂ ts us : List Token} (ho : o.kind = .lbrace) (ho₂ : o₂.kind = .lbrace) (h : Closes inner close)
      (h₂ : Closes inner₂ close₂) (hs : Alike P 0 false ts us) :
      Alike P 0 false (o :: (inner ++ close :: ts)) (o₂ :: (inner₂ ++ close₂ :: us))

namespace Alike

lemma of_sameCode (h : SameCode P ts us) : Alike P n f ts us := by
  induction h generalizing n f with
  | nil => exact .nil
  | cons h _ ih => exact .cons h ih

/-- Inside a group tokens are alike one by one. -/
lemma cut (h : Alike P (m + n + 1) f (inner ++ close :: ts) us)
    (hcut : cutGroup? n (inner ++ close :: rest) = some (inner, close, rest)) :
    ∃ inner₂ close₂ us', us = inner₂ ++ close₂ :: us' ∧ SameCode P inner inner₂ ∧ close.Like P close₂ ∧ Alike P m false ts us' := by
  generalize hd : m + n + 1 = d at h
  induction inner generalizing n d f us with
  | nil =>
    rw [List.nil_append] at h hcut
    obtain ⟨hclose, rfl⟩ := cutGroup?_close.1 hcut
    have hopen := Kind.isOpen_of_isClose hclose
    cases h with
    | cons h hs =>
      have hdepth : close.kind.depthBehind d = m := by
        rw [Kind.depthBehind, if_neg (by simp [hopen]), if_pos hclose, ← hd]
        omega
      have hword : decide (close.kind = .structWord) = false := by
        rw [decide_eq_false_iff_not]
        intro e
        rw [e] at hclose
        exact absurd hclose (by decide)
      rw [hdepth, hword] at hs
      exact ⟨[], _, _, rfl, .nil, h, hs⟩
    | braces ho =>
      rw [ho] at hclose
      exact absurd hclose (by decide)
  | cons t inner ih =>
    -- inside a group no braces may differ
    obtain ⟨u, us, rfl, ht, hs⟩ : ∃ u us', us = u :: us' ∧ t.Like P u ∧
        Alike P (t.kind.depthBehind d) (t.kind = .structWord) (inner ++ close :: ts) us' := by
      rw [List.cons_append] at h
      generalize hx : t :: (inner ++ close :: ts) = x at h
      cases h with
      | nil => cases hx
      | cons h hs =>
        cases hx
        exact ⟨_, _, rfl, h, hs⟩
      | braces => omega
    obtain ⟨hstays, hcut⟩ := cutGroup?_inner.1 hcut
    have hdepth : m + t.kind.depthBehind n + 1 = t.kind.depthBehind d := by
      unfold Kind.depthBehind
      split
      · omega
      split
      · next hc =>
        have := hstays hc
        omega
      · exact hd
    obtain ⟨inner₂, close₂, us', rfl, hinner, hclose, hrest⟩ := ih hcut _ hdepth hs
    exact ⟨u :: inner₂, close₂, us', rfl, .cons ht hinner, hclose, hrest⟩

/-- **Groups.**  What is alike has its groups at the same places. -/
theorem group (h : Alike P n f (o :: (inner ++ close :: ts)) us) (ho : o.kind.isOpen)
    (hcut : cutGroup? 0 (inner ++ close :: rest) = some (inner, close, rest)) :
    ∃ o₂ inner₂ close₂ us', us = o₂ :: (inner₂ ++ close₂ :: us') ∧ o.kind = o₂.kind ∧ Closes inner₂ close₂ ∧
      (∃ m, Alike P m false ts us') ∧ (f = true ∨ o.kind ≠ .lbrace → SameCode P inner inner₂) := by
  generalize hx : o :: (inner ++ close :: ts) = x at h
  cases h with
  | nil => cases hx
  | cons h hs =>
    cases hx
    rw [Kind.depthBehind, if_pos ho] at hs
    obtain ⟨inner₂, close₂, us', rfl, hinner, hclose, hrest⟩ := Alike.cut (n := 0) hs hcut
    exact ⟨_, inner₂, close₂, us', rfl, h.1, cutGroup?_of_kinds hcut hinner.kinds hclose.1, ⟨_, hrest⟩, fun _ => hinner⟩
  | @braces o' o₂ close' close₂ inner' inner₂ ts' us' ho' ho₂ hclose' hclose₂ hs =>
    obtain ⟨rfl, hx'⟩ := List.cons.inj hx
    have heq : some (inner, close, ts) = some (inner', close', ts') := by
      rw [← (closes_of_cut hcut).cut, hx', hclose'.cut]
    simp only [Option.some.injEq, Prod.mk.injEq] at heq
    obtain ⟨rfl, rfl, rfl⟩ := heq
    refine ⟨o₂, inner₂, close₂, us', rfl, by rw [ho', ho₂], hclose₂, ⟨0, hs⟩, ?_⟩
    rintro (h | h)
    · cases h
    · exact absurd ho' h

end Alike

/-! ### Cursors in front of code that is alike -/

/-- Whether two runs of tokens both begin with a statement end, or both are empty. -/
def Stops (e e₂ : List Token) : Prop :=
  (e = [] ∧ e₂ = []) ∨ ∃ t t₂ r r₂, e = t :: r ∧ e₂ = t₂ :: r₂ ∧ t.kind = .semi ∧ t₂.kind = .semi

/-- Whether two cursors are in front of code that is alike up to where a statement or the file ends: `e` and `e₂` are what
begins there. -/
def Agree (P : Text → Text → Prop) (e e₂ : List Token) (c c₂ : Cursor) : Prop :=
  ∃ n f us us₂, c.ahead = us ++ e ∧ c₂.ahead = us₂ ++ e₂ ∧ Alike P n f us us₂ ∧ Stops e e₂

namespace Agree

lemma of_sameCode (h : SameCode P ts us) (hc : c.ahead = ts ++ e) (hc₂ : c₂.ahead = us ++ e₂) (hs : Stops e e₂) :
    Agree P e e₂ c c₂ :=
  ⟨0, false, ts, us, hc, hc₂, .of_sameCode h, hs⟩

lemma kindAt? (h : Agree P e e₂ c c₂) (hn : ∀ i < n, c.kindAt? i ≠ some .semi ∧ c.kindAt? i ≠ some .lbrace) :
    c₂.kindAt? n = c.kindAt? n := by
  obtain ⟨m, f, us, us₂, hc, hc₂, halike, hs⟩ := h
  simp only [Cursor.kindAt?, hc, hc₂] at hn ⊢
  clear hc hc₂
  induction n generalizing m f us us₂ with
  | zero =>
    cases halike with
    | nil => obtain ⟨rfl, rfl⟩ | ⟨t, t₂, r, r₂, rfl, rfl, ht, ht₂⟩ := hs <;> simp [*]
    | cons h => simp [h.1]
    | braces ho ho₂ => simp [ho, ho₂]
  | succ n ih =>
    have hzero := hn 0 (Nat.succ_pos n)
    cases halike with
    | nil =>
      obtain ⟨rfl, rfl⟩ | ⟨t, t₂, r, r₂, rfl, rfl, ht, -⟩ := hs
      · rfl
      · simp [ht] at hzero
    | cons h hs' =>
      have := ih _ _ _ _ hs' fun i hi => by simpa using hn (i + 1) (Nat.succ_lt_succ hi)
      simpa using this
    | braces ho => simp [ho] at hzero

lemma kindAt?_zero : c.kindAt? 0 = c.kind? := by simp [Cursor.kindAt?, Cursor.kind?, List.head?_eq_getElem?]

lemma kind? (h : Agree P e e₂ c c₂) : c₂.kind? = c.kind? := by
  rw [← kindAt?_zero, ← kindAt?_zero]
  exact h.kindAt? (by simp)

/-- The next tokens, when no brace is ahead. -/
lemma next (h : Agree P e e₂ c c₂) (hlt : e.length < c.size) (hk : c.kind? ≠ some .lbrace) : ∃ t t₂ ts ts₂, c.ahead = t :: ts ∧
    c₂.ahead = t₂ :: ts₂ ∧ t.Like P t₂ ∧ ∀ b b₂, Agree P e e₂ ⟨b, ts⟩ ⟨b₂, ts₂⟩ := by
  obtain ⟨n, f, us, us₂, hc, hc₂, halike, hs⟩ := h
  cases halike with
  | nil =>
    rw [Cursor.size, hc] at hlt
    exact absurd hlt (by simp)
  | @cons _ _ t t₂ ts ts₂ h hs' => exact ⟨t, t₂, ts ++ e, ts₂ ++ e₂, hc, hc₂, h, fun b b₂ => ⟨_, _, ts, ts₂, rfl, rfl, hs', hs⟩⟩
  | braces ho => simp [Cursor.kind?, hc, ho] at hk

lemma advance (h : Agree P e e₂ c c₂) (hlt : e.length < c.size) (hk : c.kind? ≠ some .lbrace) :
    Agree P e e₂ c.advance c₂.advance := by
  obtain ⟨t, t₂, ts, ts₂, hc, hc₂, -, hrest⟩ := h.next hlt hk
  rw [Cursor.advance, Cursor.advance, hc, hc₂]
  exact hrest _ _

lemma pastSemis (h : Agree P e e₂ c c₂) (hle : e.length ≤ c.pastSemis.size) : Agree P e e₂ c.pastSemis c₂.pastSemis := by
  obtain ⟨n, f, us, us₂, hc, hc₂, halike, hs⟩ := h
  rw [Cursor.size, Cursor.pastSemis] at hle
  simp only [hc] at hle
  suffices H : ∃ n f vs vs₂, (us ++ e).dropWhile (·.kind = .semi) = vs ++ e ∧
      (us₂ ++ e₂).dropWhile (·.kind = .semi) = vs₂ ++ e₂ ∧ Alike P n f vs vs₂ by
    obtain ⟨n, f, vs, vs₂, hvs, hvs₂, halike⟩ := H
    exact ⟨n, f, vs, vs₂, by rw [Cursor.pastSemis, hc, hvs], by rw [Cursor.pastSemis, hc₂, hvs₂], halike, hs⟩
  clear hc hc₂
  induction us generalizing n f us₂ with
  | nil =>
    cases halike
    obtain ⟨rfl, rfl⟩ | ⟨t, t₂, r, r₂, rfl, rfl, ht, ht₂⟩ := hs
    · exact ⟨0, false, [], [], rfl, rfl, .nil⟩
    · rw [List.nil_append, List.dropWhile_cons_of_pos (by simpa using ht)] at hle
      have := (List.dropWhile_sublist (l := r) (fun x : Token => decide (x.kind = .semi))).length_le
      rw [List.length_cons] at hle
      omega
  | cons t us ih =>
    by_cases ht : t.kind = .semi
    · cases halike with
      | cons h hs' =>
        rw [List.cons_append, List.dropWhile_cons_of_pos (by simpa using ht)] at hle ⊢
        rw [List.cons_append, List.dropWhile_cons_of_pos (by simpa [← h.1] using ht)]
        exact ih _ _ _ hs' hle
      | braces ho =>
        rw [ho] at ht
        cases ht
    · refine ⟨n, f, t :: us, us₂, List.dropWhile_cons_of_neg (by simpa using ht), ?_, halike⟩
      have htail : ∀ u us', us₂ = u :: us' → u.kind = t.kind → (us₂ ++ e₂).dropWhile (·.kind = .semi) = us₂ ++ e₂ := by
        rintro u us' rfl hu
        exact List.dropWhile_cons_of_neg (by simpa [hu] using ht)
      cases halike with
      | cons h => exact htail _ _ rfl h.1.symm
      | braces ho ho₂ => exact htail _ _ rfl (by rw [ho, ho₂])

end Agree

end RuleWeaver.Source
