import RuleWeaver.Proofs.Detection.Respacing
import RuleWeaver.Proofs.Layout.Stability
import RuleWeaver.Proofs.Source.CarriageReturns

/-!
# What is found in a text that is laid out

Layout takes out carriage returns and white space in front of line breaks, which recognisers of code do not look at: the methods
and functions found in a text are found in it when it is laid out (`methodTypes_subset_layout`, `functions_subset_layout`).
-/

namespace RuleWeaver

open Source Detection
open Unicode (isSpace)
open Relation (ReflTransGen)

variable {α : Type} {r : Recogniser α} {x : α} {s t out : Text} {L L' : List Lexeme}

/-! ### Carriage returns -/

/-- A carriage return in front of a line break is white space. -/
lemma Source.Carried.breaksAlike (h : Carried L L') : BreaksAlike (codeOf L) (codeOf L') := by
  have hnil : ([] : Text).all isSpace := rfl
  have hreturn : (['\r'] : Text).all isSpace := by decide +kernel
  have hblank : ([' '] : Text).all isSpace := by decide +kernel
  have hsize : '\r'.utf8Size = 1 := by decide
  cases h with
  | blank A B w =>
    have := BreaksAlike.step (codeOf A ++ w) (codeOf B) hnil hreturn
    simpa [Lexeme.code, Kind.isComment, lineBreak] using this
  | comment A B t =>
    have := BreaksAlike.step (codeOf A ++ blanked t) (codeOf B) hnil hblank
    simpa [Lexeme.code, Kind.isComment, lineBreak, blanked, hsize] using this
  | bare A B =>
    have := BreaksAlike.step (codeOf A) (codeOf B) hnil hreturn
    simpa [Lexeme.code, Kind.isComment, lineBreak] using this
  | long A B hk p q =>
    rcases hk with rfl | rfl
    · have := BreaksAlike.step (codeOf A ++ p) (q ++ codeOf B) hnil hreturn
      simpa [Lexeme.code, Kind.isComment] using this
    · have := BreaksAlike.step (codeOf A ++ blanked p) (blanked q ++ codeOf B) hnil hblank
      simpa [Lexeme.code, Kind.isComment, blanked, hsize] using this

/-- The second text is the first one with a carriage return in front of a line break. -/
inductive Returned : Text → Text → Prop
  | step (a b : Text) : Returned (a ++ '\n' :: b) (a ++ '\r' :: '\n' :: b)

lemma Returned.cons (c : Char) (h : Returned s t) : Returned (c :: s) (c :: t) := by
  obtain ⟨a, b⟩ := h
  exact .step (c :: a) b

lemma returned_cons (c : Char) (h : ReflTransGen Returned s t) : ReflTransGen Returned (c :: s) (c :: t) := by
  induction h with
  | refl => exact .refl
  | tail _ h ih => exact ih.tail (h.cons c)

/-- A text comes back from single characters for line breaks. -/
theorem returned_unixText : ReflTransGen Returned (unixText s) s := by
  induction hn : s.length using Nat.strong_induction_on generalizing s with
  | _ n ih =>
  cases s with
  | nil =>
    rw [unixText, Text.replaceAll]
  | cons c s =>
    cases hstrip : Text.strip? "\r\n" (c :: s) with
    | none =>
      rw [unixText_cons hstrip]
      exact returned_cons c (ih s.length (by rw [← hn]; simp) rfl)
    | some rest =>
      have hs : c :: s = '\r' :: '\n' :: rest := Text.strip?_eq_some_iff.1 hstrip
      rw [hs] at hn ⊢
      rw [unixText_break]
      refine (returned_cons '\n' (ih rest.length (by rw [← hn, List.length_cons, List.length_cons]; omega) rfl)).tail ?_
      exact .step [] rest

/-- A property of texts that carriage returns in front of line breaks do not change. -/
lemma of_unixText {P : Text → Prop} (hstep : ∀ {s t}, isWhole s → Returned s t → P t → P s) (hs : isWhole (unixText s)) (h : P s) :
    P (unixText s) := by
  have hchain : ReflTransGen Returned (unixText s) s := returned_unixText
  generalize unixText s = u at hs hchain
  induction hchain using ReflTransGen.head_induction_on with
  | refl => exact h
  | head hret _ ih =>
    refine hstep hs hret (ih ?_)
    obtain ⟨a, b⟩ := hret
    exact (carried_lex hs).2

lemma finds_unixText (hr : ReadsCode r) (h : Finds r x (commentsBlanked s)) (hs : isWhole (unixText s)) :
    Finds r x (commentsBlanked (unixText s)) := by
  refine of_unixText (P := fun s => Finds r x (commentsBlanked s)) (fun {s t} hw hret ht => ?_) hs h
  obtain ⟨a, b⟩ := hret
  exact (carried_lex hw).1.breaksAlike.symm.finds hr ht

/-! ### White space that is taken out -/

lemma Source.Tidied.breaksAlike (h : Tidied L L') (hL : IsLexed L) : BreaksAlike (codeOf L) (codeOf L') := by
  have hL' := h.isLexed hL
  obtain ⟨A, B, htight⟩ := h
  rename_i X X'
  have hspace : ∀ {Y : List Lexeme}, IsLexed (A ++ (Y ++ lineBreak :: B)) → (∀ l ∈ Y, l.kind.isSignificant = false) →
      (codeOf Y).all isSpace := fun hY hgap =>
    all_isSpace_codeOf_gap (fun l hl => by rw [hY.1]; simp [hl]) hgap
  have hgap := htight.not_isSignificant
  have hX := hspace hL fun l hl => hgap l (List.mem_append_left _ hl)
  have hX' := hspace hL' fun l hl => hgap l (List.mem_append_right _ hl)
  simpa [Lexeme.code, Kind.isComment, lineBreak] using BreaksAlike.step (codeOf A) (codeOf B) hX hX'

lemma Source.TidiedTo.finds (hr : ReadsCode r) (h : TidiedTo L L') (hL : IsLexed L) (hs : Finds r x (codeOf L)) :
    Finds r x (codeOf L') := by
  induction h with
  | refl => exact hs
  | tail hto h ih => exact (h.breaksAlike (TidiedTo.isLexed hto hL)).finds hr ih

/-- **Layout hides nothing.**  What is found in a text is found in it when it is laid out. -/
theorem finds_layout (hr : ReadsCode r) (hs : Finds r x (commentsBlanked s)) (h : layout s = .ok out) :
    Finds r x (commentsBlanked out) := by
  obtain ⟨hw, lead, M, hlex, hlead, ht, -, -⟩ := layout_eq_ok h
  have hsound : isWhole (closed (unixText s)) := by
    unfold isWhole at hw ⊢
    rcases lex_closed hw with e | e <;> simp [e, hw, lineBreak, Lexeme.isSound]
  have hlexed : IsLexed (lead ++ M) := hlex ▸ isLexed_lex hsound
  have hclosed : Finds r x (codeOf (lead ++ M)) := by
    have hunix : Finds r x (codeOf (lex (unixText s))) := finds_unixText hr hs hw
    rw [← hlex]
    rcases lex_closed hw with e | e <;> rw [e]
    · exact hunix
    · rw [codeOf_append]
      exact hunix.append hr _
  rw [codeOf_append] at hclosed
  have hspace : (codeOf lead).all isSpace := all_isSpace_codeOf_gap (fun l hl => by rw [hlexed.1]; simp [hl]) hlead.not_isSignificant
  exact ht.finds hr hlexed.right (hclosed.of_gap hr hspace)

theorem methodTypes_subset_layout (h : layout s = .ok out) : methodTypes s ⊆ methodTypes out := fun _ htype =>
  mem_methodTypes_iff_finds.2 (finds_layout readsCode_readMethodHead? (mem_methodTypes_iff_finds.1 htype) h)

theorem functions_subset_layout (h : layout s = .ok out) : functions s ⊆ functions out := fun _ hname =>
  mem_functions_iff_finds.2 (finds_layout readsCode_readFunction? (mem_functions_iff_finds.1 hname) h)

end RuleWeaver
