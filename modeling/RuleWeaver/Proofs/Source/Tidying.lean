import Mathlib.Logic.Relation
import RuleWeaver.Proofs.Source.Gaps
import RuleWeaver.Proofs.Source.LineBreaks

/-!
# Less white space in front of line breaks

Layout only ever takes white space away that stands in front of a line break: blanks, the blanks at the end of a comment
and line breaks.  `Tidied` is one such step on lexemes, `TidiedTo` any number of them.

* `TidiedTo.isLexed`: the text that remains has the lexemes that remain;
* `TidiedTo.split`: significant lexemes stay, and what stands in front of one and behind it is tidied by itself;
* `TidiedTo.trims`: the other lexemes that are no white space stay, but for blanks at the end of comments;
* `TidiedTo.statementLexemes_eq`: statements end where they ended before.
-/

namespace RuleWeaver.Source

open Text (run)
open Relation (ReflTransGen)

variable {A B F R L L' X X' : List Lexeme} {l : Lexeme} {s t w y : Text} {stack : List Kind}

/-- A line break as a lexeme. -/
def lineBreak : Lexeme := ⟨.newline, ['\n']⟩

/-- Whether layout takes a character away at the end of a line. -/
def isTrimmed (c : Char) : Bool := c = ' ' || c = '\t'

lemma isBlank_of_isTrimmed {c : Char} (h : isTrimmed c) : isBlank c := by
  rw [isTrimmed, Bool.or_eq_true, decide_eq_true_eq, decide_eq_true_eq] at h
  rcases h with rfl | rfl <;> rfl

/-- What stands in front of a line break, with less white space. -/
inductive Tightened : List Lexeme → List Lexeme → Prop
  | comment (t w : Text) (hw : w.all isTrimmed) :
      Tightened [⟨.lineComment, '/' :: '/' :: (t ++ w)⟩] [⟨.lineComment, '/' :: '/' :: t⟩]
  | blanks (t w : Text) (ht : t ≠ []) (hw : w.all isBlank) : Tightened [⟨.blank, t ++ w⟩] [⟨.blank, t⟩]
  | blank (w : Text) : Tightened [⟨.blank, w⟩] []
  | line : Tightened [lineBreak] []

/-- Lexemes with less white space in front of one line break. -/
inductive Tidied : List Lexeme → List Lexeme → Prop
  | here (A B : List Lexeme) {X X' : List Lexeme} (h : Tightened X X') :
      Tidied (A ++ (X ++ lineBreak :: B)) (A ++ (X' ++ lineBreak :: B))

/-- Lexemes with less white space in front of line breaks. -/
def TidiedTo : List Lexeme → List Lexeme → Prop := ReflTransGen Tidied

/-! ### What stands in front of a line break -/

/-- Blanks are one lexeme up to where they end. -/
lemma lex_blanks_append (hs : s ≠ []) (hb : s.all isBlank) (hy : y.head?.all (!isBlank ·)) : lex (s ++ y) = ⟨.blank, s⟩ :: lex y := by
  rcases s with _ | ⟨b, s⟩
  · exact absurd rfl hs
  rw [List.all_cons, Bool.and_eq_true] at hb
  have hm : munch b (s ++ y) = (.blank, s.length) := by
    have hrun : run isBlank (s ++ y) = s.length := Text.run_append_eq_length_iff.2 ⟨hb.2, hy⟩
    simp [munch, hb.1, hrun]
  exact lex_cons hm

lemma lex_blanks (hs : s ≠ []) (hb : s.all isBlank) : lex (s ++ '\n' :: y) = ⟨.blank, s⟩ :: lex ('\n' :: y) :=
  lex_blanks_append hs hb rfl

lemma all_isBlank_of_lex (h : lex s = ⟨.blank, w⟩ :: L) : w.all isBlank := by
  obtain ⟨c, u, y, rfl, hm, ht, -⟩ := lex_cons_inv h
  obtain rfl : w = c :: u := ht
  obtain ⟨hc, hrun⟩ | ⟨rfl, -⟩ := munch_gap (x := c) (y := u ++ y) (by rw [hm]; rfl) (by rw [hm]; rfl)
  · rw [hm] at hrun
    rw [List.all_cons, hc, (Text.run_append_eq_length_iff.1 hrun.symm).1]
    rfl
  · cases hm

/-! ### Line breaks and blanks in lexemes -/

/-- Where a lexeme has line breaks, and whether it ends in blanks. -/
inductive Lexeme.Form (l : Lexeme) : Prop
  | blank (hk : l.kind = .blank) (h : l.text.all isBlank)
  | lineBreak (h : l = lineBreak)
  | comment (t : Text) (h : l = ⟨.lineComment, '/' :: '/' :: t⟩) (ht : '\n' ∉ t)
  /-- Literals and comments that may hold line breaks stand between marks. -/
  | long (hk : l.kind = .rawString ∨ l.kind = .blockComment) (u : Text) (c : Char) (hc : c = '\x60' ∨ c = '/')
      (ht : l.text = c :: (u ++ [c]))
  | short (hk : l.kind ≠ .newline) (h : '\n' ∉ l.text) (hlast : ∀ x ∈ l.text.getLast?, isBlank x = false)

lemma not_isBlank_of_isOperatorChar {c : Char} (h : isOperatorChar c) : isBlank c = false ∧ c ≠ '\n' := by
  have := not_isSpace_of_isOperatorChar h
  refine ⟨?_, ?_⟩
  · by_contra hb
    rw [isSpace_of_isBlank (by simpa using hb)] at this
    cases this
  · rintro rfl
    cases h

lemma Lexeme.Form.of_forall {k : Kind} {c : Char} {u : Text} (hk : k ≠ .newline) (hc : isBlank c = false ∧ c ≠ '\n')
    (hu : ∀ x ∈ u, isBlank x = false ∧ x ≠ '\n') : Lexeme.Form ⟨k, c :: u⟩ := by
  have hall : ∀ x ∈ c :: u, isBlank x = false ∧ x ≠ '\n' := List.forall_mem_cons.2 ⟨hc, hu⟩
  exact .short hk (fun h => (hall _ h).2 rfl) fun x hx => (hall x (List.mem_of_getLast? hx)).1

lemma newline_not_mem_quoted {mark : Char} {u : Text} (h : quoted mark u = (true, u.length)) : '\n' ∉ u := by
  intro hmem
  obtain ⟨a, b, rfl⟩ := List.append_of_mem hmem
  rw [quoted_append_newline] at h
  have hle : (quoted mark a).2 ≤ a.length := quoted_le
  rw [h, List.length_append, List.length_cons] at hle
  omega

lemma isBlank_of_isNameChar {c : Char} (h : isNameChar c) : isBlank c = false ∧ c ≠ '\n' := by
  constructor
  · by_contra hb
    simp only [Bool.not_eq_false, isBlank, decide_eq_true_eq] at hb
    rcases hb with rfl | rfl | rfl | rfl <;> exact absurd h (by decide)
  · rintro rfl
    exact absurd h (by decide)

lemma isBlank_of_isNumberChar {c : Char} (h : isNumberChar c) : isBlank c = false ∧ c ≠ '\n' := by
  constructor
  · by_contra hb
    simp only [Bool.not_eq_false, isBlank, decide_eq_true_eq] at hb
    rcases hb with rfl | rfl | rfl | rfl <;> exact absurd h (by decide)
  · rintro rfl
    exact absurd h (by decide)

/-- Where the lexemes of a text have line breaks, and which of them end in blanks. -/
theorem form_of_mem_lex (hl : l ∈ lex s) (hs : l.isSound) : l.Form := by
  obtain ⟨c, u, ht, hm⟩ := exists_munch_of_mem hl hs
  have hstray := kind_ne_stray hs
  obtain ⟨k, t⟩ := l
  obtain rfl : t = c :: u := ht
  dsimp only at hm hstray
  have hk : (munch c u).1 = k := by rw [hm]
  by_cases hgap : isBlank c ∨ c = '\n'
  · obtain hb | rfl := hgap
    · have hm' : munch c u = (.blank, run isBlank u) := by simp [munch, hb]
      rw [hm'] at hm
      refine .blank (Prod.mk.inj hm).1.symm ?_
      rw [List.all_cons, hb, Text.run_eq_length_iff.1 (Prod.mk.inj hm).2]
      rfl
    · obtain ⟨rfl, hu⟩ := Prod.mk.inj hm
      obtain rfl : u = [] := List.length_eq_zero_iff.1 hu.symm
      exact .lineBreak rfl
  rw [not_or, Bool.not_eq_true] at hgap
  have hnewline : k ≠ .newline := by
    rintro rfl
    obtain ⟨hb, -⟩ | ⟨rfl, -⟩ := munch_gap (x := c) (y := u) (by rw [hk]; rfl) (by rw [hk]; rfl)
    · rw [hgap.1] at hb
      cases hb
    · exact hgap.2 rfl
  cases wholeForm hm hstray with
  | blank _ hc hu =>
    rw [hgap.1] at hc
    cases hc
  | word hk hc hu h => exact .of_forall hnewline hgap fun x hx => isBlank_of_isNameChar (List.all_eq_true.1 hu x hx)
  | number hk hc hu => exact .of_forall hnewline hgap fun x hx => isBlank_of_isNumberChar (List.all_eq_true.1 hu x hx)
  | single hk hu | dot hk hc hu =>
    subst hu
    exact .of_forall hnewline hgap (List.forall_mem_nil _)
  | quoted hk hu h =>
    refine .short hnewline ?_ fun x hx => ?_
    · rw [List.mem_cons, not_or]
      exact ⟨fun e => hgap.2 e.symm, newline_not_mem_quoted hu⟩
    · rw [List.getLast?_cons, getLast?_quoted hu] at hx
      cases hx
      exact hgap.1
  | raw hk hc hu =>
    obtain ⟨v, hv⟩ := List.getLast?_eq_some_iff.1 (getLast?_raw hu)
    exact .long (.inl hk) v '\x60' (.inl rfl) (by rw [hc, hv])
  | ellipsis hk hc hu =>
    subst hc hu
    exact .of_forall hnewline hgap fun x hx => by
      obtain rfl : x = '.' := by simpa using hx
      exact hgap
  | lineComment hk hc v hu hv =>
    subst hk hc hu
    exact .comment v rfl hv
  | blockComment hk hc v hu hv =>
    obtain ⟨t, ht⟩ := List.getLast?_eq_some_iff.1 (getLast?_commentEnd hv)
    exact .long (.inr hk) ('*' :: t) '/' (.inr rfl) (by rw [hc, hu, ht]; rfl)
  | operator hk hc hu => exact .of_forall hnewline hgap fun x hx => not_isBlank_of_isOperatorChar (List.all_eq_true.1 hu x hx)

/-! ### The lexemes of what remains -/

lemma Tightened.not_isSignificant (h : Tightened X X') : ∀ l ∈ X ++ X', l.kind.isSignificant = false := by
  cases h <;> simp [lineBreak, Kind.isSignificant]

/-- A lexeme behind which text begins with a character that is no dot stays when the rest changes. -/
lemma IsLexed.replace {d : Char} (h : IsLexed (A ++ B)) (hd : d ≠ '.') (hB : joined B = d :: s) (hL : IsLexed L)
    (hLd : joined L = d :: t) : IsLexed (A ++ L) := by
  refine ⟨?_, ?_⟩
  · rw [joined_append, hLd, lex_joined_append hd h.1 hB h.left.2, ← hLd, hL.1]
  · simp only [List.mem_append]
    rintro l (hl | hl)
    · exact h.left.2 l hl
    · exact hL.2 l hl

/-- In front of a line break every whole text stays as it is. -/
lemma IsLexed.append_lineBreak (hA : IsLexed A) (hB : IsLexed B) : IsLexed (A ++ lineBreak :: B) := by
  refine ⟨?_, ?_⟩
  · have hbreak : joined (lineBreak :: B) = '\n' :: joined B := rfl
    rw [joined_append, hbreak, hA.lex_append_newline, hB.1]
    rfl
  · simp only [List.mem_append, List.mem_cons]
    rintro l (hl | rfl | hl)
    · exact hA.2 l hl
    · rfl
    · exact hB.2 l hl

lemma IsLexed.of_eq {L : List Lexeme} (hs : joined L = s) (h : lex s = L) (hL : ∀ l ∈ L, l.isSound) : IsLexed L :=
  ⟨by rw [hs, h], hL⟩

theorem Tidied.isLexed (h : Tidied L L') (hL : IsLexed L) : IsLexed L' := by
  obtain ⟨A, B, htight⟩ := h
  have hB : IsLexed (lineBreak :: B) := (IsLexed.right (A := A ++ _) (by rwa [List.append_assoc]))
  have hB' : IsLexed B := IsLexed.right (A := [lineBreak]) hB
  have hbreak : joined (lineBreak :: B) = '\n' :: joined B := rfl
  cases htight with
  | comment t w hw =>
    obtain ⟨v, hv, hflat⟩ : ∃ v, '/' :: '/' :: (t ++ w) = '/' :: '/' :: v ∧ '\n' ∉ v := by
      have hmem : (⟨.lineComment, '/' :: '/' :: (t ++ w)⟩ : Lexeme) ∈ lex (joined (A ++ ([⟨.lineComment, '/' :: '/' :: (t ++ w)⟩] ++ lineBreak :: B))) := by
        rw [hL.1]
        simp
      have hform := form_of_mem_lex hmem rfl
      cases hform with
      | blank hk h => cases hk
      | lineBreak h => cases h
      | comment v h hflat => exact ⟨v, congrArg Lexeme.text h, hflat⟩
      | long hk u c hc ht => rcases hk with hk | hk <;> cases hk
      | short hk h hlast =>
        refine ⟨_, rfl, fun hmem => h ?_⟩
        exact List.mem_cons_of_mem _ (List.mem_cons_of_mem _ hmem)
    obtain rfl : t ++ w = v := (List.cons.inj (List.cons.inj hv).2).2
    have hcomment : IsLexed ([⟨.lineComment, '/' :: '/' :: t⟩] ++ lineBreak :: B) := by
      refine .of_eq (s := '/' :: '/' :: (t ++ '\n' :: joined B)) (by simp [lineBreak]) ?_ ?_
      · rw [lex_lineComment fun h => hflat (List.mem_append_left _ h), ← hbreak, hB.1]
        rfl
      · simp only [List.singleton_append, List.mem_cons]
        rintro l (rfl | rfl | hl)
        · rfl
        · rfl
        · exact hB'.2 l hl
    exact hL.replace (d := '/') (by decide) rfl hcomment rfl
  | blanks t w ht hw =>
    obtain ⟨d, t, rfl⟩ := List.exists_cons_of_ne_nil ht
    have hall : (d :: t ++ w).all isBlank := by
      have := IsLexed.right hL
      exact all_isBlank_of_lex this.1
    rw [List.all_append, Bool.and_eq_true] at hall
    have hdot : d ≠ '.' := by
      rintro rfl
      exact absurd hall.1 (by simp [isBlank])
    have hblank : IsLexed ([⟨.blank, d :: t⟩] ++ lineBreak :: B) := by
      refine .of_eq (s := (d :: t) ++ '\n' :: joined B) (by simp [lineBreak]) ?_ ?_
      · rw [lex_blanks ht hall.1, ← hbreak, hB.1]
        rfl
      · simp only [List.singleton_append, List.mem_cons]
        rintro l (rfl | rfl | hl)
        · rfl
        · rfl
        · exact hB'.2 l hl
    exact hL.replace hdot rfl hblank rfl
  | blank w => exact hL.left.append_lineBreak hB'
  | line => exact hL.left.append_lineBreak hB'

lemma TidiedTo.isLexed (h : TidiedTo L L') (hL : IsLexed L) : IsLexed L' := by
  induction h with
  | refl => exact hL
  | tail _ h ih => exact h.isLexed ih

/-! ### Parts of what remains -/

lemma Tidied.append_left (h : Tidied L L') (A : List Lexeme) : Tidied (A ++ L) (A ++ L') := by
  obtain ⟨A', B, h⟩ := h
  simpa only [List.append_assoc] using Tidied.here (A ++ A') B h

lemma TidiedTo.append_left (h : TidiedTo L L') (A : List Lexeme) : TidiedTo (A ++ L) (A ++ L') := by
  induction h with
  | refl => exact .refl
  | tail _ h ih => exact ih.tail (h.append_left A)

lemma Tidied.split (h : Tidied (F ++ l :: R) L') (hl : l.kind.isSignificant) :
    (∃ F', L' = F' ++ l :: R ∧ Tidied F F') ∨ ∃ R', L' = F ++ l :: R' ∧ Tidied R R' := by
  generalize hL : F ++ l :: R = L at h
  obtain ⟨A, B, htight⟩ := h
  have hgap := htight.not_isSignificant
  rename_i X X'
  have hX : l ∉ X := fun hmem => by
    rw [hgap l (List.mem_append_left _ hmem)] at hl
    cases hl
  rcases List.append_eq_append_iff.1 hL with ⟨C, rfl, hC⟩ | ⟨C, rfl, hC⟩
  · rcases C with _ | ⟨m, C⟩
    · rw [List.nil_append] at hC
      rcases X with _ | ⟨x, X⟩
      · obtain ⟨rfl, -⟩ := List.cons.inj hC
        cases hl
      · obtain ⟨rfl, -⟩ := List.cons.inj hC
        exact absurd List.mem_cons_self hX
    · obtain ⟨rfl, rfl⟩ := List.cons.inj hC
      refine .inr ⟨C ++ (X' ++ lineBreak :: B), by simp, .here C B htight⟩
  · rcases List.append_eq_append_iff.1 hC with ⟨D, rfl, hD⟩ | ⟨D, rfl, hD⟩
    · rcases D with _ | ⟨m, D⟩
      · obtain ⟨rfl, -⟩ := List.cons.inj hD
        cases hl
      · obtain ⟨rfl, rfl⟩ := List.cons.inj hD
        exact .inl ⟨A ++ (X' ++ lineBreak :: D), by simp, .here A D htight⟩
    · rcases D with _ | ⟨m, D⟩
      · obtain ⟨rfl, -⟩ := List.cons.inj hD
        cases hl
      · obtain ⟨rfl, -⟩ := List.cons.inj hD
        exact absurd (List.mem_append_right _ List.mem_cons_self) hX

/-- Significant lexemes stay, and what stands in front of one and behind it is tidied by itself. -/
theorem TidiedTo.split (h : TidiedTo (F ++ l :: R) L') (hl : l.kind.isSignificant) :
    ∃ F' R', L' = F' ++ l :: R' ∧ TidiedTo F F' ∧ TidiedTo R R' := by
  induction h with
  | refl => exact ⟨F, R, rfl, .refl, .refl⟩
  | tail _ h ih =>
    obtain ⟨F', R', rfl, hF, hR⟩ := ih
    obtain ⟨F'', rfl, hF'⟩ | ⟨R'', rfl, hR'⟩ := h.split hl
    · exact ⟨F'', R', rfl, hF.tail hF', hR⟩
    · exact ⟨F', R'', rfl, hF, hR.tail hR'⟩

lemma Tidied.isBalanced_eq (h : Tidied L L') : isBalanced stack L' = isBalanced stack L := by
  obtain ⟨A, B, htight⟩ := h
  refine isBalanced_congr fun stack => ?_
  cases htight <;> simp [isBalanced, lineBreak, Kind.isOpen, Kind.isClose]

lemma TidiedTo.isBalanced_eq (h : TidiedTo L L') : isBalanced stack L' = isBalanced stack L := by
  induction h with
  | refl => rfl
  | tail _ h ih => rw [h.isBalanced_eq, ih]

/-- White space in front of a line break ends no statement, and a line break behind another one ends none either. -/
lemma Tidied.statementLexemes_eq {e : Bool} (h : Tidied L L') : statementLexemes e L' = statementLexemes e L := by
  obtain ⟨A, B, htight⟩ := h
  have front := fun ys => @statementLexemes_append e A ys
  rw [front, front]
  generalize endingBehind e A = e'
  cases htight <;> cases e' <;>
    simp [statementLexemes, statementPart, endingBehind, lineBreak, Lexeme.breaksLine, Kind.isComment]

lemma TidiedTo.statementLexemes_eq {e : Bool} (h : TidiedTo L L') : statementLexemes e L' = statementLexemes e L := by
  induction h with
  | refl => rfl
  | tail _ h ih => rw [h.statementLexemes_eq, ih]

/-! ### Lexemes that stay -/

/-- Whether lexemes of the class are more than white space. -/
def Kind.isText (k : Kind) : Bool := k ≠ .blank ∧ k ≠ .newline

/-- Whether a lexeme stays as it is, but for spaces and tabs at the end of a line comment. -/
def Lexeme.Trims (l m : Lexeme) : Prop :=
  l.kind = m.kind ∧ (l.text = m.text ∨ l.kind = .lineComment ∧ ∃ w : Text, w.all isTrimmed ∧ l.text = m.text ++ w)

namespace Lexeme.Trims

lemma refl (l : Lexeme) : l.Trims l := ⟨rfl, .inl rfl⟩

lemma trans {m n : Lexeme} (h : l.Trims m) (h' : m.Trims n) : l.Trims n := by
  refine ⟨h.1.trans h'.1, ?_⟩
  rcases h.2 with e | ⟨hk, w, hw, e⟩ <;> rcases h'.2 with e' | ⟨hk', w', hw', e'⟩
  · exact .inl (e.trans e')
  · exact .inr ⟨h.1.trans hk', w', hw', e.trans e'⟩
  · exact .inr ⟨hk, w, hw, by rw [e, e']⟩
  · exact .inr ⟨hk, w' ++ w, by rw [List.all_append, hw, hw', Bool.and_self], by rw [e, e', List.append_assoc]⟩

lemma forall₂_trans {M N : List Lexeme} (h : List.Forall₂ Lexeme.Trims L M) (h' : List.Forall₂ Lexeme.Trims M N) :
    List.Forall₂ Lexeme.Trims L N := by
  induction h generalizing N with
  | nil => exact h'
  | cons h _ ih =>
    cases h' with
    | cons h' hs => exact .cons (h.trans h') (ih hs)

end Lexeme.Trims

lemma Tidied.trims (h : Tidied L L') : List.Forall₂ Lexeme.Trims (L.filter (·.kind.isText)) (L'.filter (·.kind.isText)) := by
  have refl : ∀ ls : List Lexeme, List.Forall₂ Lexeme.Trims ls ls := fun ls => List.forall₂_same.2 fun l _ => .refl l
  obtain ⟨A, B, htight⟩ := h
  simp only [List.filter_append]
  refine List.rel_append (refl _) (List.rel_append ?_ (refl _))
  cases htight with
  | comment t w hw => exact .cons ⟨rfl, .inr ⟨rfl, w, hw, rfl⟩⟩ .nil
  | blanks | blank | line => exact .nil

/-- **What tidying keeps.**  The lexemes that are more than white space stay one by one. -/
theorem TidiedTo.trims (h : TidiedTo L L') :
    List.Forall₂ Lexeme.Trims (L.filter (·.kind.isText)) (L'.filter (·.kind.isText)) := by
  induction h with
  | refl => exact List.forall₂_same.2 fun l _ => .refl l
  | tail _ h ih => exact Lexeme.Trims.forall₂_trans ih h.trims

lemma Tidied.getLast?_eq (h : Tidied L L') : L'.getLast? = L.getLast? := by
  obtain ⟨A, B, htight⟩ := h
  simp [List.getLast?_append, List.getLast?_cons]

lemma TidiedTo.getLast?_eq (h : TidiedTo L L') : L'.getLast? = L.getLast? := by
  induction h with
  | refl => rfl
  | tail _ h ih => rw [h.getLast?_eq, ih]

end RuleWeaver.Source
