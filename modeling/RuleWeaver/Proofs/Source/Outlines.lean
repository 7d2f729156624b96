import RuleWeaver.Proofs.Source.Sections

/-!
# Outlines

The outline of code is what stands outside braces, with empty braces for what they hold.  It depends neither on what braces
hold (`Outlines.exists_group`) nor on what stands in front of all of them (`Outlines.append_iff`).
-/

namespace RuleWeaver.Source

variable {o close l : Lexeme} {k : Kind} {inside stack : List Kind} {L X Y Z out inner inner₂ rest rest₂ : List Lexeme}

/-! ### Groups -/

/-- In brackets that match, an open bracket is closed, with brackets that match in between. -/
lemma exists_closed (h : isBalanced (inside ++ k :: stack) L) :
    ∃ inner close rest, L = inner ++ close :: rest ∧ k.closer? = some close.kind ∧ isBalanced inside inner ∧
      isBalanced stack rest := by
  induction L generalizing inside with
  | nil => simp [isBalanced] at h
  | cons l L ih =>
    have step : ∀ inside', isBalanced (inside' ++ k :: stack) L →
        (∀ inner, isBalanced inside' inner → isBalanced inside (l :: inner)) →
        ∃ inner close rest, l :: L = inner ++ close :: rest ∧ k.closer? = some close.kind ∧ isBalanced inside inner ∧
          isBalanced stack rest := by
      intro inside' h hcons
      obtain ⟨inner, close, rest, rfl, hclose, hinner, hrest⟩ := ih h
      exact ⟨l :: inner, close, rest, rfl, hclose, hcons inner hinner, hrest⟩
    simp only [isBalanced] at h
    split at h
    · next ho => exact step (l.kind :: inside) h fun inner hi => by simpa [isBalanced, ho] using hi
    next ho =>
    split at h
    · next hc =>
      rcases inside with _ | ⟨i, inside⟩
      · rw [List.nil_append, Bool.and_eq_true] at h
        exact ⟨[], l, L, rfl, of_decide_eq_true h.1, rfl, h.2⟩
      · rw [List.cons_append, Bool.and_eq_true] at h
        refine step inside h.2 fun inner hi => ?_
        simp only [isBalanced, if_neg ho, if_pos hc, Bool.and_eq_true]
        exact ⟨h.1, hi⟩
    · next hc => exact step inside h fun inner hi => by simpa [isBalanced, ho, hc] using hi

/-- A group ends in one place. -/
lemma eq_of_closed {close₂ : Lexeme} (h : inner ++ close :: rest = inner₂ ++ close₂ :: rest₂) (hi : isBalanced [] inner)
    (hi₂ : isBalanced [] inner₂) (hc : close.kind.isClose) (hc₂ : close₂.kind.isClose) :
    inner = inner₂ ∧ close = close₂ ∧ rest = rest₂ := by
  have notOpen : ∀ {l : Lexeme} {ls}, l.kind.isClose → isBalanced [] (l :: ls) = false := by
    intro l ls hl
    have ho : l.kind.isOpen = false := by
      revert hl
      cases l.kind <;> simp [Kind.isOpen, Kind.isClose]
    simp [isBalanced, ho, hl]
  rcases List.append_eq_append_iff.1 h with ⟨w, rfl, e⟩ | ⟨w, rfl, e⟩
  · rcases w with _ | ⟨x, w⟩
    · obtain ⟨rfl, rfl⟩ := List.cons.inj e
      exact ⟨(List.append_nil _).symm, rfl, rfl⟩
    · obtain ⟨rfl, rfl⟩ := List.cons.inj e
      rw [isBalanced_append hi, notOpen hc] at hi₂
      cases hi₂
  · rcases w with _ | ⟨x, w⟩
    · obtain ⟨rfl, rfl⟩ := List.cons.inj e
      exact ⟨List.append_nil _, rfl, rfl⟩
    · obtain ⟨rfl, rfl⟩ := List.cons.inj e
      rw [isBalanced_append hi₂, notOpen hc₂] at hi
      cases hi

/-- Counting ends behind brackets that match. -/
lemma closing_append {source : Text} {opening n : Nat} (h : isBalanced inside inner) (hstray : ∀ m ∈ inner, m.kind ≠ .stray)
    (hl : l.kind.isClose) :
    closing source opening (inside.length + 1) (place n (inner ++ l :: rest)) = .ok (n + (joined inner).width) := by
  induction inner generalizing inside n with
  | nil =>
    obtain rfl : inside = [] := by simpa [isBalanced] using h
    have ho := Kind.isOpen_of_isClose hl
    have hstray : l.kind ≠ .stray := by
      rintro hk
      rw [hk] at hl
      cases hl
    simp [place_cons, closing, hl, ho, hstray]
  | cons m inner ih =>
    have ih := fun inside h => @ih inside (n + m.text.width) h fun m hm => hstray m (List.mem_cons_of_mem _ hm)
    have hm := hstray m List.mem_cons_self
    simp only [isBalanced] at h
    simp only [List.cons_append, place_cons, closing, hm, if_false, joined_cons, Text.width_append, ← Nat.add_assoc]
    by_cases ho : m.kind.isOpen
    · simp only [ho, if_true] at h ⊢
      exact ih _ h
    by_cases hc : m.kind.isClose
    · simp only [ho, hc, if_true, if_false, Bool.false_eq_true] at h ⊢
      rcases inside with _ | ⟨k, inside⟩
      · cases h
      · rw [Bool.and_eq_true] at h
        rw [if_neg (by simp)]
        exact ih inside h.2
    · simp only [ho, hc, if_false, Bool.false_eq_true] at h ⊢
      exact ih inside h

/-! ### Outlines -/

/-- Whether lexemes are others with what stands between braces left out. -/
inductive Outlines : List Lexeme → List Lexeme → Prop
  | nil : Outlines [] []
  | code {l : Lexeme} {L out : List Lexeme} (ho : l.kind ≠ .lbrace) (hc : l.kind ≠ .rbrace) (h : Outlines L out) :
    Outlines (l :: L) (l :: out)
  | braces {o close : Lexeme} {inner L out : List Lexeme} (ho : o.kind = .lbrace) (hi : isBalanced [] inner)
    (hc : close.kind = .rbrace) (h : Outlines L out) : Outlines (o :: (inner ++ close :: L)) (o :: close :: out)

namespace Outlines

lemma self (h : ∀ l ∈ X, l.kind ≠ .lbrace ∧ l.kind ≠ .rbrace) : Outlines X X := by
  induction X with
  | nil => exact .nil
  | cons l X ih =>
    obtain ⟨ho, hc⟩ := h l List.mem_cons_self
    exact .code ho hc (ih fun m hm => h m (List.mem_cons_of_mem _ hm))

/-- Code in front of all braces is in the outline as it is. -/
lemma append_iff (hX : ∀ l ∈ X, l.kind ≠ .lbrace ∧ l.kind ≠ .rbrace) :
    Outlines (X ++ L) out ↔ ∃ out', out = X ++ out' ∧ Outlines L out' := by
  induction X generalizing out with
  | nil => simp
  | cons l X ih =>
    obtain ⟨ho, hc⟩ := hX l List.mem_cons_self
    have ih := fun out => @ih out fun m hm => hX m (List.mem_cons_of_mem _ hm)
    constructor
    · intro h
      rw [List.cons_append] at h
      generalize hY : X ++ L = Y at h
      cases h with
      | code _ _ h =>
        subst hY
        obtain ⟨out', rfl, hout⟩ := (ih _).1 h
        exact ⟨out', rfl, hout⟩
      | braces ho' => exact absurd ho' ho
    · rintro ⟨out', rfl, h⟩
      exact .code ho hc ((ih _).2 ⟨out', rfl, h⟩)

/-- **What braces hold is not in the outline.** -/
theorem exists_group (h : Outlines (X ++ o :: Z) out) (ho : o.kind = .lbrace) :
    ∃ inner close rest, Z = inner ++ close :: rest ∧ close.kind = .rbrace ∧ isBalanced [] inner ∧
      ∀ inner', isBalanced [] inner' → Outlines (X ++ o :: (inner' ++ close :: rest)) out := by
  generalize hL : X ++ o :: Z = L at h
  induction h generalizing X with
  | nil => simp at hL
  | @code l L out ho' hc h ih =>
    rcases X with _ | ⟨x, X⟩
    · obtain ⟨rfl, -⟩ := List.cons.inj hL
      exact absurd ho ho'
    · obtain ⟨rfl, rfl⟩ := List.cons.inj hL
      obtain ⟨inner, close, rest, hZ, hclose, hinner, hout⟩ := ih rfl
      exact ⟨inner, close, rest, hZ, hclose, hinner, fun inner' hi => .code ho' hc (hout inner' hi)⟩
  | @braces o₀ close₀ inner₀ L out ho₀ hi₀ hc₀ h ih =>
    rcases X with _ | ⟨x, X⟩
    · obtain ⟨rfl, rfl⟩ := List.cons.inj hL
      exact ⟨inner₀, close₀, L, rfl, hc₀, hi₀, fun inner' hi => .braces ho hi hc₀ h⟩
    obtain ⟨rfl, hinside⟩ := List.cons.inj hL
    rcases List.append_eq_append_iff.1 hinside with ⟨w, rfl, e⟩ | ⟨w, rfl, e⟩
    · -- the brace stands inside the group
      rcases w with _ | ⟨y, w⟩
      · rw [List.nil_append] at e
        obtain ⟨rfl, -⟩ := List.cons.inj e
        rw [ho] at hc₀
        cases hc₀
      · obtain ⟨rfl, rfl⟩ := List.cons.inj e
        obtain ⟨stack, hstack⟩ := exists_isBalanced_right hi₀
        have hopen : isBalanced ([] ++ o.kind :: stack) w := by
          simpa [isBalanced, show o.kind.isOpen by rw [ho]; rfl] using hstack
        obtain ⟨inner, close, rest, rfl, hclose, hinner, -⟩ := exists_closed hopen
        have hclose' : close.kind = .rbrace := by
          rw [ho] at hclose
          exact (Option.some.inj hclose).symm
        refine ⟨inner, close, rest ++ close₀ :: L, by simp, hclose', hinner, fun inner' hi => ?_⟩
        have hsame : ∀ stack, isBalanced stack (o :: (inner' ++ close :: rest)) = isBalanced stack (o :: (inner ++ close :: rest)) := by
          intro stack
          simp only [isBalanced, isBalanced_append hi, isBalanced_append hinner]
        have hi' : isBalanced [] (X ++ o :: (inner' ++ close :: rest)) := by
          rw [isBalanced_congr hsame]
          exact hi₀
        have := Outlines.braces ho₀ hi' hc₀ h
        simpa using this
    · -- the brace stands behind the group
      rcases w with _ | ⟨y, w⟩
      · rw [List.nil_append] at e
        obtain ⟨rfl, -⟩ := List.cons.inj e
        rw [ho] at hc₀
        cases hc₀
      · obtain ⟨rfl, rfl⟩ := List.cons.inj e
        obtain ⟨inner, close, rest, hZ, hclose, hinner, hout⟩ := ih rfl
        refine ⟨inner, close, rest, hZ, hclose, hinner, fun inner' hi => ?_⟩
        have := Outlines.braces ho₀ hi₀ hc₀ (hout inner' hi)
        simpa using this

end Outlines

end RuleWeaver.Source
