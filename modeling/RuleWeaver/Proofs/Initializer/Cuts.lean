import RuleWeaver.Proofs.Initializer.Statements
import RuleWeaver.Proofs.Source.Tidying
import RuleWeaver.Proofs.Text.Splitting

/-!
# Cuts

What a widened cut takes away.
-/

namespace RuleWeaver

open Source
open Unicode (isSpace)

/-! ### In front of a cut -/

section LineHeads

variable {s u v : Text} {l : Lexeme} {A G : List Lexeme}

lemma Text.all_isSpace_of_trim (h : trim u = []) : u.all isSpace := by
  obtain ⟨a, b, hu, ha, hb⟩ := exists_trim u
  rw [hu, h, List.nil_append, List.all_append, ha, hb]
  rfl

/-- A list is cut at the last of its elements with a property. -/
lemma exists_last {α : Type} {p : α → Bool} {xs : List α} (h : ∃ x ∈ xs, p x) :
    ∃ ys x zs, xs = ys ++ x :: zs ∧ p x ∧ ∀ z ∈ zs, p z = false := by
  induction xs with
  | nil => simp at h
  | cons y xs ih =>
    by_cases hxs : ∃ x ∈ xs, p x
    · obtain ⟨ys, x, zs, rfl, hx, hzs⟩ := ih hxs
      exact ⟨y :: ys, x, zs, rfl, hx, hzs⟩
    · obtain ⟨x, hx, hp⟩ := h
      rcases List.mem_cons.1 hx with rfl | hx
      · exact ⟨[], x, xs, rfl, hp, fun z hz => Bool.eq_false_iff.2 fun h => hxs ⟨z, hz, h⟩⟩
      · exact (hxs ⟨x, hx, hp⟩).elim

/-- A comment that holds a line break ends with a slash. -/
lemma slash_mem_lastLine (hG : ∀ l ∈ G, l ∈ lex s ∧ l.isSound) (hcounted : ∀ l ∈ G, l.kind.isCounted = false)
    (hn : '\n' ∈ joined G) : '/' ∈ Text.lastLine (u ++ joined G) := by
  obtain ⟨x, c, y, hxy, hc, hrest⟩ := exists_last (p := fun c => decide (c = '\n')) ⟨_, hn, by simp⟩
  obtain rfl := of_decide_eq_true hc
  have hy : '\n' ∉ y := fun hmem => by simpa using hrest _ hmem
  obtain ⟨xs, l, ys, p, q, rfl, htext, -, rfl⟩ := exists_lexeme_at hxy
  obtain ⟨hmem, hsound⟩ := hG l (by simp)
  have hcounted := hcounted l (by simp)
  rw [hxy, ← List.append_assoc, Text.lastLine_append_newline, Text.lastLine_of_not_mem hy]
  have hline : '\n' ∈ l.text := by simp [htext]
  cases form_of_mem_lex hmem hsound with
  | blank hk h => exact absurd (List.all_eq_true.1 h _ hline) (by decide)
  | lineBreak h =>
    rw [h] at hcounted
    cases hcounted
  | comment t h ht =>
    rw [h] at hline
    simp [ht] at hline
  | long hk v c hc ht =>
    have hcomment : l.kind = .blockComment := by
      rcases hk with hk | hk
      · rw [hk] at hcounted
        cases hcounted
      · exact hk
    obtain ⟨t, hslash⟩ := exists_comment hmem (by rw [hcomment]; rfl)
    have hc : c = '/' := by
      rw [ht] at hslash
      exact (List.cons.inj hslash).1
    -- the mark at the end stands behind the line break
    have hlast : (p ++ '\n' :: q).getLast? = some '/' := by
      rw [← htext, ht, hc, ← List.cons_append, List.getLast?_concat]
    rw [List.getLast?_append_cons] at hlast
    cases q with
    | nil => simp at hlast
    | cons d q =>
      rw [List.getLast?_cons_cons] at hlast
      exact List.mem_append_left _ (List.mem_of_getLast? hlast)
  | short hk h hlast => exact absurd hline h

/-- In front of a cut on lines of its own stand a line break and blanks. -/
lemma blanks_of_lineHead (hA : ∀ m ∈ A ++ l :: G, m ∈ lex s ∧ m.isSound) (hl : l.kind = .newline ∨ l.kind = .semi ∨ l.kind = .lbrace)
    (hG : ∀ m ∈ G, m.kind.isCounted = false) (h : Text.trim (Text.lastLine (joined (A ++ l :: G))) = []) :
    l = lineBreak ∧ (∀ m ∈ G, m.kind = .blank) ∧ Text.lastLine (joined (A ++ l :: G)) = joined G := by
  have hmemG : ∀ m ∈ G, m ∈ lex s ∧ m.isSound := fun m hm => hA m (by simp [hm])
  obtain ⟨hlmem, hlsound⟩ := hA l (by simp)
  have hspace := List.all_eq_true.1 (Text.all_isSpace_of_trim h)
  have hslash : isSpace '/' = false := by decide
  have hsplit : joined (A ++ l :: G) = joined A ++ l.text ++ joined G := by simp
  rw [hsplit] at hspace ⊢
  have hn : '\n' ∉ joined G := fun hn => by
    have := hspace _ (slash_mem_lastLine hmemG hG hn)
    rw [hslash] at this
    cases this
  rw [Text.lastLine_append hn] at hspace ⊢
  -- a semicolon or a brace would stand on the line
  have hbreak : l = lineBreak := by
    have hone : ∀ c, l.text = [c] → c ≠ '\n' → isSpace c = false → False := by
      intro c hc hne hnot
      rw [hc, Text.lastLine_append (by simpa using Ne.symm hne)] at hspace
      rw [hspace c (by simp)] at hnot
      cases hnot
    rcases hl with hk | hk | hk
    · cases form_of_mem_lex hlmem hlsound with
      | lineBreak h => exact h
      | blank hk' | short hk' => simp [hk] at hk'
      | comment t h => simp [h] at hk
      | long hk' => simp [hk] at hk'
    · exact (hone _ (text_of_semi hlmem hk) (by decide) (by decide)).elim
    · exact (hone _ (text_of_bracket hlmem (by rw [hk]; rfl)) (by decide) (by decide)).elim
  rw [hbreak, show lineBreak.text = '\n' :: [] from rfl, Text.lastLine_append_newline, Text.lastLine_nil, List.nil_append] at hspace ⊢
  refine ⟨rfl, fun m hm => ?_, rfl⟩
  by_contra hk
  have hcounted := hG m hm
  have hcomment : m.kind.isComment := by
    revert hk hcounted
    cases m.kind <;> simp [Kind.isCounted, Kind.isSignificant, Kind.isComment]
  obtain ⟨t, ht⟩ := exists_comment (hmemG m hm).1 hcomment
  have := hspace '/' (List.mem_flatMap.2 ⟨m, hm, by simp [ht]⟩)
  rw [hslash] at this
  cases this

end LineHeads

/-! ### Behind a cut -/

section Tails

variable {source r w : Text} {n start stop : Nat} {l : Lexeme} {B : List Lexeme}

/-- Whether a text goes on with another from an offset on. -/
def Text.IsAt (source : Text) (n : Nat) (r : Text) : Prop := ∃ u, source = u ++ r ∧ u.width = n

lemma Text.IsAt.dropBytes_eq (h : IsAt source n r) : dropBytes n source = r := by
  obtain ⟨u, rfl, rfl⟩ := h
  exact dropBytes_width_append

lemma Text.IsAt.step (h : IsAt source n (w ++ r)) : IsAt source (n + w.width) r := by
  obtain ⟨u, rfl, rfl⟩ := h
  exact ⟨u ++ w, by simp, Text.width_append u w⟩

/-- The offset behind the blanks at an offset. -/
def behindBlanks (source : Text) (n : Nat) : Nat := n + blanksWidth (Text.dropBytes n source)

/-- The offset behind the blanks and a semicolon. -/
def behindSemi (source : Text) (n : Nat) : Nat :=
  if (Text.dropBytes (behindBlanks source n) source).head? = some ';' then behindBlanks source n + 1 else behindBlanks source n

/-- The offset behind the blanks, a line comment and a line break. -/
def behindLine (source : Text) (n : Nat) : Nat :=
  let rest := Text.dropBytes (behindBlanks source n) source
  let stop := behindBlanks source n + Text.width (if (Text.strip? "//" rest).isSome then rest.takeWhile (· ≠ '\n') else [])
  if (Text.dropBytes stop source).head? = some '\n' then stop + 1 else stop

lemma widenCut_eq (cut : Span) : widenCut source cut =
    if Text.trim (Text.lastLine (Text.slice source 0 cut.start)) = [] then
      ⟨cut.start - (Text.lastLine (Text.slice source 0 cut.start)).width, behindLine source (behindSemi source cut.stop)⟩
    else ⟨cut.start, behindSemi source cut.stop⟩ := rfl

lemma Text.IsAt.isBoundary (h : IsAt source n r) : IsBoundary source n := by
  obtain ⟨u, rfl, rfl⟩ := h
  exact isBoundary_width_append

lemma Text.IsAt.behindBlanks (h : IsAt source n r) :
    IsAt source (behindBlanks source n) (r.dropWhile isTrimmed) := by
  rw [RuleWeaver.behindBlanks, h.dropBytes_eq]
  rw [← List.takeWhile_append_dropWhile (p := isTrimmed) (l := r)] at h
  exact h.step

/-- Past a character that may be ahead. -/
lemma Text.IsAt.past {x : Char} (h : IsAt source n r) (hx : x.utf8Size = 1) :
    ∃ r', IsAt source (if r.head? = some x then n + 1 else n) r' := by
  split
  · next hhead =>
    obtain ⟨r', rfl⟩ : ∃ r', r = x :: r' := ⟨r.tail, List.eq_cons_of_mem_head? hhead⟩
    refine ⟨r', ?_⟩
    have hstep := IsAt.step (w := [x]) h
    rwa [width_cons, width_nil, hx] at hstep
  · exact ⟨r, h⟩

/-- Cuts end between characters. -/
lemma Text.IsAt.isBoundary_behind (h : IsAt source n r) :
    IsBoundary source (behindSemi source n) ∧ IsBoundary source (behindLine source (behindSemi source n)) := by
  obtain ⟨r', hsemi⟩ : ∃ r', IsAt source (behindSemi source n) r' := by
    rw [behindSemi, h.behindBlanks.dropBytes_eq]
    exact h.behindBlanks.past rfl
  refine ⟨hsemi.isBoundary, ?_⟩
  have hblanks := hsemi.behindBlanks
  rw [behindLine]
  simp only [hblanks.dropBytes_eq]
  obtain ⟨r₁, hcomment⟩ : ∃ r₁, IsAt source (RuleWeaver.behindBlanks source (behindSemi source n) + Text.width
      (if (Text.strip? "//" (r'.dropWhile isTrimmed)).isSome then (r'.dropWhile isTrimmed).takeWhile (· ≠ '\n') else [])) r₁ := by
    split
    · rw [← List.takeWhile_append_dropWhile (p := fun c => decide (c ≠ '\n')) (l := r'.dropWhile isTrimmed)] at hblanks
      exact ⟨_, hblanks.step⟩
    · exact ⟨_, hblanks⟩
  rw [hcomment.dropBytes_eq]
  obtain ⟨r₂, hline⟩ := hcomment.past (x := '\n') rfl
  exact hline.isBoundary

/-- Whether an offset stands in front of a blank that is neither a space nor a tab. -/
def IsStuck (source : Text) (n : Nat) : Prop := ∃ c r, Text.IsAt source n (c :: r) ∧ isBlank c ∧ isTrimmed c = false

lemma IsStuck.behindBlanks_eq (h : IsStuck source n) : behindBlanks source n = n := by
  obtain ⟨c, r, hat, -, hc⟩ := h
  rw [behindBlanks, hat.dropBytes_eq, blanksWidth, List.takeWhile_cons_of_neg (by simpa [isTrimmed] using hc)]
  rfl

lemma IsStuck.behindSemi_eq (h : IsStuck source (behindBlanks source n)) : behindSemi source n = behindBlanks source n := by
  obtain ⟨c, r, hat, hblank, -⟩ := h
  rw [behindSemi, hat.dropBytes_eq, if_neg]
  rintro ⟨⟩
  cases hblank

lemma IsStuck.behindLine_eq (h : IsStuck source (behindBlanks source n)) : behindLine source n = behindBlanks source n := by
  obtain ⟨c, r, hat, hblank, -⟩ := h
  have hstrip : Text.strip? "//" (c :: r) = none := by
    rw [Option.eq_none_iff_forall_ne_some]
    intro y hy
    obtain ⟨rfl, -⟩ := List.cons.inj (Text.strip?_eq_some_iff.1 hy)
    cases hblank
  have hhead : (c :: r).head? ≠ some '\n' := by
    rintro ⟨⟩
    cases hblank
  simp only [behindLine, hat.dropBytes_eq, hstrip, Option.isSome_none, Bool.false_eq_true, if_false, Text.width_nil, Nat.add_zero, hhead]

lemma blanksWidth_of_not_isBlank (h : r.head?.all (!isBlank ·)) : blanksWidth r = 0 := by
  cases r with
  | nil => rfl
  | cons c r =>
    have hc : ¬ isTrimmed c := fun hc => by simp [isBlank_of_isTrimmed hc] at h
    rw [blanksWidth, List.takeWhile_cons_of_neg (by simpa [isTrimmed] using hc)]
    rfl

lemma blanksWidth_append_of_all {y : Text} (hw : w.all isTrimmed) (hy : y.head?.all (!isBlank ·)) :
    blanksWidth (w ++ y) = w.width := by
  have hsplit : blanksWidth (w ++ y) = w.width + blanksWidth y := by
    show Text.width ((w ++ y).takeWhile isTrimmed) = w.width + Text.width (y.takeWhile isTrimmed)
    rw [List.takeWhile_append_of_pos (List.all_eq_true.1 hw), Text.width_append]
  rw [hsplit, blanksWidth_of_not_isBlank hy, Nat.add_zero]

lemma blanksWidth_append_cons {d : Char} {y : Text} (hw : w.all isTrimmed) (hd : isTrimmed d = false) :
    blanksWidth (w ++ d :: y) = w.width := by
  show Text.width ((w ++ d :: y).takeWhile isTrimmed) = w.width
  rw [List.takeWhile_append_of_pos (List.all_eq_true.1 hw), List.takeWhile_cons_of_neg (by simp [hd]), List.append_nil]

/-- A run of blanks ends where its lexeme ends or in front of another blank. -/
lemma behindBlanks_cases (hB : lex (joined B) = B) (h : Text.IsAt source n (joined B)) :
    (∃ W B', B = W ++ B' ∧ (∀ l ∈ W, l.kind = .blank) ∧ behindBlanks source n = n + (joined W).width) ∨
      ∃ g K, B = g :: K ∧ g.kind = .blank ∧ n ≤ behindBlanks source n ∧ behindBlanks source n ≤ n + g.text.width ∧
        IsStuck source (behindBlanks source n) := by
  rw [behindBlanks, h.dropBytes_eq]
  rcases B with _ | ⟨l, K⟩
  · exact .inl ⟨[], [], rfl, by simp, rfl⟩
  obtain ⟨c, u, y, hy, hm, htext, -⟩ := lex_cons_inv hB
  rw [hy] at h ⊢
  by_cases hc : isBlank c
  · have hmunch : munch c (u ++ y) = (.blank, Text.run isBlank (u ++ y)) := by
      unfold munch
      rw [if_pos hc]
    rw [hmunch, Prod.mk.injEq] at hm
    obtain ⟨hall, hhead⟩ := Text.run_append_eq_length_iff.1 hm.2
    by_cases htrimmed : (c :: u).all isTrimmed
    · exact .inl ⟨[l], K, rfl, by simp [← hm.1], by rw [← List.cons_append, blanksWidth_append_of_all htrimmed hhead]; simp [htext]⟩
    · -- the blanks hold one that is neither a space nor a tab
      obtain ⟨w, d, t, hsplit, hw, hd⟩ : ∃ w d t, c :: u = w ++ d :: t ∧ w.all isTrimmed ∧ isTrimmed d = false := by
        cases hrest : (c :: u).dropWhile isTrimmed with
        | nil => exact absurd (List.all_eq_true.2 (List.dropWhile_eq_nil_iff.1 hrest)) htrimmed
        | cons d t =>
          have hd := List.head?_dropWhile_not isTrimmed (c :: u)
          rw [hrest] at hd
          exact ⟨_, d, t, by rw [← hrest, List.takeWhile_append_dropWhile], List.all_takeWhile, by simpa using hd⟩
      have hblank : isBlank d := by
        have hmem : d ∈ c :: u := by simp [hsplit]
        rcases List.mem_cons.1 hmem with rfl | hmem
        · exact hc
        · exact List.all_eq_true.1 hall d hmem
      rw [← List.cons_append, hsplit, List.append_assoc, List.cons_append] at h ⊢
      rw [blanksWidth_append_cons hw hd]
      refine .inr ⟨l, K, rfl, hm.1.symm, Nat.le_add_right _ _, ?_, d, t ++ y, h.step, hblank, hd⟩
      rw [htext, hsplit, Text.width_append]
      omega
  · exact .inl ⟨[], l :: K, rfl, by simp, by rw [blanksWidth_of_not_isBlank (by simpa using hc)]; rfl⟩

lemma lex_semi {y : Text} : lex (';' :: y) = ⟨.semi, [';']⟩ :: lex y := lex_cons (u := []) (by rfl)

/-- Behind blanks a cut takes one semicolon. -/
lemma behindSemi_cases (hB : lex (joined B) = B) (h : Text.IsAt source n (joined B)) :
    (∃ W S B', B = W ++ (S ++ B') ∧ (∀ l ∈ W, l.kind = .blank) ∧ S.length ≤ 1 ∧ (∀ l ∈ S, l.kind = .semi) ∧
      behindSemi source n = n + (joined (W ++ S)).width) ∨
      ∃ g K, B = g :: K ∧ g.kind = .blank ∧ n ≤ behindSemi source n ∧ behindSemi source n ≤ n + g.text.width ∧
        IsStuck source (behindSemi source n) := by
  rcases behindBlanks_cases hB h with ⟨W, B', rfl, hW, hbehind⟩ | ⟨g, K, rfl, hg, hle, hge, hstuck⟩
  · left
    rw [joined_append] at h
    have hat := h.step
    rw [← hbehind] at hat
    rw [behindSemi, hat.dropBytes_eq, hbehind]
    cases hy : joined B' with
    | nil => exact ⟨W, [], B', rfl, hW, by simp, by simp, by simp⟩
    | cons c y =>
      by_cases hc : c = ';'
      · have hB' : B' = ⟨.semi, [';']⟩ :: lex y := by rw [← lex_semi, ← hc, ← hy, lex_joined_right hB]
        exact ⟨W, [⟨.semi, [';']⟩], lex y, by rw [hB']; rfl, hW, by simp, by simp, by simp [hc, Nat.add_assoc]; rfl⟩
      · exact ⟨W, [], B', rfl, hW, by simp, by simp, by simp [hc]⟩
  · right
    rw [hstuck.behindSemi_eq]
    exact ⟨g, K, rfl, hg, hle, hge, hstuck⟩

/-- On lines of its own, a cut takes a line comment and a line break behind blanks. -/
lemma behindLine_cases (hB : lex (joined B) = B) (h : Text.IsAt source n (joined B)) :
    (∃ W C N B', B = W ++ (C ++ (N ++ B')) ∧ (∀ l ∈ W, l.kind = .blank) ∧ (∀ l ∈ C, l.kind = .lineComment) ∧
      (N = [] ∨ N = [lineBreak]) ∧ behindLine source n = n + (joined (W ++ (C ++ N))).width) ∨
      ∃ g K, B = g :: K ∧ g.kind = .blank ∧ n ≤ behindLine source n ∧ behindLine source n ≤ n + g.text.width := by
  rcases behindBlanks_cases hB h with ⟨W, B₁, rfl, hW, hbehind⟩ | ⟨g, K, rfl, hg, hle, hge, hstuck⟩
  · left
    rw [joined_append] at h
    have hat := h.step
    have hB₁ := lex_joined_right hB
    rw [← hbehind] at hat
    -- the comment is one lexeme
    obtain ⟨C, B₂, rfl, hC, hcomment⟩ : ∃ C B₂, B₁ = C ++ B₂ ∧ (∀ l ∈ C, l.kind = .lineComment) ∧
        (if (Text.strip? "//" (joined B₁)).isSome then (joined B₁).takeWhile (· ≠ '\n') else []) = joined C := by
      cases hstrip : Text.strip? "//" (joined B₁) with
      | none => exact ⟨[], B₁, rfl, by simp, rfl⟩
      | some y =>
        have hy : joined B₁ = '/' :: '/' :: y := Text.strip?_eq_some_iff.1 hstrip
        have hnot : '\n' ∉ y.takeWhile (· ≠ '\n') := fun hmem => by
          have := List.all_eq_true.1 (List.all_takeWhile (p := fun c => decide (c ≠ '\n'))) _ hmem
          simp at this
        have hrest : (y.dropWhile (· ≠ '\n')).head?.all (· = '\n') := by
          have := List.head?_dropWhile_not (fun c => decide (c ≠ '\n')) y
          cases hd : (y.dropWhile (· ≠ '\n')) with
          | nil => rfl
          | cons d z =>
            rw [hd] at this
            simpa using this
        refine ⟨[⟨.lineComment, '/' :: '/' :: y.takeWhile (· ≠ '\n')⟩], lex (y.dropWhile (· ≠ '\n')), ?_, by simp, ?_⟩
        · rw [List.singleton_append, ← lex_lineComment_append hnot hrest, List.takeWhile_append_dropWhile, ← hy, hB₁]
        · rw [hy]
          simp
    have hline := hat
    rw [joined_append] at hline
    have hline := hline.step
    simp only [behindLine, hat.dropBytes_eq, hcomment, hline.dropBytes_eq]
    cases hy : joined B₂ with
    | nil => exact ⟨W, C, [], B₂, rfl, hW, hC, .inl rfl, by simp [hbehind, Nat.add_assoc]⟩
    | cons c y =>
      by_cases hc : c = '\n'
      · have hB₂ : B₂ = lineBreak :: lex y := by
          rw [lineBreak, ← lex_newline, ← hc, ← hy, lex_joined_right hB₁]
        exact ⟨W, C, [lineBreak], lex y, by rw [hB₂]; rfl, hW, hC, .inr rfl, by simp [hbehind, hc, Nat.add_assoc]; rfl⟩
      · exact ⟨W, C, [], B₂, rfl, hW, hC, .inl rfl, by simp [hbehind, hc, Nat.add_assoc]⟩
  · right
    rw [hstuck.behindLine_eq]
    exact ⟨g, K, rfl, hg, hle, hge⟩

/-- What a cut takes from `n` up to `m` of what stands behind its statements: whole lexemes `T`, blanks and one semicolon
and then at most blanks, a line comment and a line break, and maybe a part of the blanks `G`. -/
structure TakesBehind (B : List Lexeme) (n m : Nat) (T G : List Lexeme) : Prop where
  isPrefix : T ++ G <+: B
  lower : n + (joined T).width ≤ m
  upper : m ≤ n + (joined (T ++ G)).width
  blank : ∀ l ∈ G, l.kind = .blank
  shape : ∃ W S R, T = W ++ (S ++ R) ∧ (∀ l ∈ W, l.kind = .blank) ∧ S.length ≤ 1 ∧ (∀ l ∈ S, l.kind = .semi) ∧
    ∀ l ∈ R, l.kind.isSignificant = false
  line : ∀ X l Y, T ++ G = X ++ l :: Y → l.kind = .newline → Y = []

lemma not_mem_of_line {X Y Z : List Lexeme} (hZ : ∀ l ∈ Z, l.kind ≠ .newline) (h : Z = X ++ l :: Y) (hl : l.kind = .newline) :
    Y = [] :=
  (hZ l (by simp [h]) hl).elim

/-- A cut among other code on its line. -/
lemma takesBehind_shared (hB : lex (joined B) = B) (h : Text.IsAt source n (joined B)) :
    ∃ T G, TakesBehind B n (behindSemi source n) T G := by
  rcases behindSemi_cases hB h with ⟨W, S, B', rfl, hW, hlength, hS, hsemi⟩ | ⟨g, K, rfl, hg, hle, hge, -⟩
  · refine ⟨W ++ S, [], ?_, hsemi.ge, by rw [List.append_nil]; exact hsemi.le, by simp, ⟨W, S, [], by simp, hW, hlength, hS, by simp⟩, ?_⟩
    · rw [List.append_nil, ← List.append_assoc]
      exact List.prefix_append _ _
    · intro X l Y
      rw [List.append_nil]
      refine not_mem_of_line fun l hl => ?_
      rcases List.mem_append.1 hl with hl | hl
      · simp [hW l hl]
      · simp [hS l hl]
  · exact ⟨[], [g], by simp, by simpa using hle, by simpa using hge, by simpa using hg, ⟨[], [], [], rfl, by simp, by simp, by simp, by simp⟩,
      fun X l Y => not_mem_of_line (by simp [hg])⟩

/-- A cut on lines of its own. -/
lemma takesBehind_own (hB : lex (joined B) = B) (h : Text.IsAt source n (joined B)) :
    ∃ T G, TakesBehind B n (behindLine source (behindSemi source n)) T G := by
  rcases behindSemi_cases hB h with ⟨W, S, B', rfl, hW, hlength, hS, hsemi⟩ | ⟨g, K, rfl, hg, hle, hge, hstuck⟩
  · rw [← List.append_assoc] at hB h ⊢
    rw [joined_append] at h
    have hat := h.step
    rw [← hsemi] at hat
    rcases behindLine_cases (lex_joined_right hB) hat with ⟨V, C, N, K, rfl, hV, hC, hN, hline⟩ | ⟨g, K, rfl, hg, hle, hge⟩
    · have hR : ∀ l ∈ W ++ (S ++ (V ++ C)), l.kind ≠ .newline := by
        simp only [List.forall_mem_append]
        exact ⟨fun l hl => by simp [hW l hl], fun l hl => by simp [hS l hl], fun l hl => by simp [hV l hl],
          fun l hl => by simp [hC l hl]⟩
      have hN' : ∀ l ∈ N, l.kind = .newline := by rcases hN with rfl | rfl <;> simp [lineBreak]
      refine ⟨W ++ (S ++ (V ++ (C ++ N))), [], ⟨K, by simp⟩, ?_, ?_, by simp, ⟨W, S, V ++ (C ++ N), rfl, hW, hlength, hS, ?_⟩, ?_⟩
      · rw [hline, hsemi, Nat.add_assoc, ← Text.width_append, ← joined_append, List.append_assoc]
      · rw [hline, hsemi, Nat.add_assoc, ← Text.width_append, ← joined_append, List.append_assoc, List.append_nil]
      · simp only [List.forall_mem_append]
        exact ⟨fun l hl => by rw [hV l hl]; rfl, fun l hl => by rw [hC l hl]; rfl, fun l hl => by rw [hN' l hl]; rfl⟩
      · intro X l Y hXY hl
        rcases hN with rfl | rfl
        · exact not_mem_of_line (by simpa using hR) hXY hl
        · -- the line break at the end is the only one
          rcases List.eq_nil_or_concat' Y with rfl | ⟨Y, y, rfl⟩
          · rfl
          · have hsplit : (W ++ (S ++ (V ++ C))) ++ [lineBreak] = (X ++ l :: Y) ++ [y] := by simpa using hXY
            exact (hR l (by rw [(List.append_inj' hsplit rfl).1]; simp) hl).elim
    · refine ⟨W ++ S, [g], ⟨K, by simp⟩, by omega, ?_, by simpa using hg, ⟨W, S, [], by simp, hW, hlength, hS, by simp⟩, ?_⟩
      · have hwidth : (joined (W ++ S ++ [g])).width = (joined (W ++ S)).width + g.text.width := by simp [Nat.add_assoc]
        omega
      · intro X l Y
        refine not_mem_of_line ?_
        simp only [List.forall_mem_append]
        exact ⟨⟨fun l hl => by simp [hW l hl], fun l hl => by simp [hS l hl]⟩, by simp [hg]⟩
  · rw [IsStuck.behindLine_eq (by rwa [hstuck.behindBlanks_eq]), hstuck.behindBlanks_eq]
    exact ⟨[], [g], by simp, by simpa using hle, by simpa using hge, by simpa using hg, ⟨[], [], [], rfl, by simp, by simp, by simp, by simp⟩,
      fun X l Y => not_mem_of_line (by simp [hg])⟩

end Tails

/-! ### Cuts among the tokens -/

section Cuts

variable {s : Text} {c c' : Span} {t : Token} {P P' P₀ R R' Q Q' L T G K M : List Token}

/-- The offset behind tokens that stand at the beginning of a text. -/
def reach (ts : List Token) : Nat := (joined (ts.map Token.lexeme)).width

@[simp] lemma reach_append : reach (P ++ Q) = reach P + reach Q := by simp [reach]

lemma tokens_split (h : tokens s = P ++ Q) : P = place 0 (P.map Token.lexeme) ∧ Q = place (reach P) (Q.map Token.lexeme) := by
  have hlex : lex s = P.map Token.lexeme ++ Q.map Token.lexeme := by rw [← map_lexeme_tokens, h, List.map_append]
  have hplace := h
  rw [tokens, hlex, place_append, Nat.zero_add] at hplace
  obtain ⟨hP, hQ⟩ := List.append_inj hplace.symm (by rw [← List.length_map Token.lexeme, ← List.length_map Token.lexeme, map_lexeme_place])
  exact ⟨hP, hQ⟩

lemma stop_le_reach (h : tokens s = P ++ Q) (ht : t ∈ P) : t.stop ≤ reach P := by
  have := stop_le_of_mem_place ((tokens_split h).1 ▸ ht)
  rwa [Nat.zero_add] at this

lemma reach_le_start (h : tokens s = P ++ Q) (ht : t ∈ Q) : reach P ≤ t.start :=
  le_start_of_mem_place ((tokens_split h).2 ▸ ht)

/-- Whether a statement can begin behind tokens: the last that counts is a line break, a semicolon or an opening brace. -/
def OpensStatement (P : List Token) : Prop :=
  ∃ P₀ u G, P = P₀ ++ u :: G ∧ (u.kind = .newline ∨ u.kind = .semi ∨ u.kind = .lbrace) ∧ ∀ t ∈ G, t.kind.isCounted = false

/-- How a cut of the tokens `R` stands among the tokens `P` in front and `Q` behind.  It takes the blanks `L` in front, the
tokens `T` behind and maybe a part of the blanks `G`. -/
structure IsCut (s : Text) (P R Q : List Token) (c : Span) (P' L T G : List Token) : Prop where
  front : P = P' ++ L
  blank_front : ∀ t ∈ L, t.kind = .blank
  line_front : L = [] ∨ ∃ t ∈ P'.getLast?, t.kind = .newline
  start : c.start = reach P'
  isPrefix : T ++ G <+: Q
  lower : reach (P ++ (R ++ T)) ≤ c.stop
  upper : c.stop ≤ reach (P ++ (R ++ (T ++ G)))
  isBoundary : Text.IsBoundary s c.stop
  blank : ∀ t ∈ G, t.kind = .blank
  shape : ∃ W S R, T = W ++ (S ++ R) ∧ (∀ t ∈ W, t.kind = .blank) ∧ S.length ≤ 1 ∧ (∀ t ∈ S, t.kind = .semi) ∧
    ∀ t ∈ R, t.kind.isSignificant = false
  line : ∀ X t Y, T ++ G = X ++ t :: Y → t.kind = .newline → Y = []

lemma isCut_of_takesBehind {n m : Nat} {T' G' : List Lexeme} (h : TakesBehind (Q.map Token.lexeme) (reach (P ++ R)) m T' G')
    (hP : P = P' ++ L) (hL : ∀ t ∈ L, t.kind = .blank) (hline : L = [] ∨ ∃ t ∈ P'.getLast?, t.kind = .newline)
    (hstart : n = reach P') (hm : Text.IsBoundary s m) : ∃ T G, IsCut s P R Q ⟨n, m⟩ P' L T G := by
  obtain ⟨K', hK⟩ := h.isPrefix
  obtain ⟨TG, K, rfl, hTG, -⟩ := List.map_eq_append_iff.1 hK.symm
  obtain ⟨T, G, rfl, rfl, rfl⟩ := List.map_eq_append_iff.1 hTG
  have hreach : ∀ U, reach (P ++ (R ++ U)) = reach (P ++ R) + (joined (U.map Token.lexeme)).width := by
    intro U
    rw [← List.append_assoc, reach_append (P := P ++ R)]
    rfl
  refine ⟨T, G, hP, hL, hline, hstart, List.prefix_append _ _, by rw [hreach]; exact h.lower, ?_, hm, ?_, ?_, ?_⟩
  · rw [hreach, List.map_append]
    exact h.upper
  · intro t ht
    exact h.blank t.lexeme (List.mem_map_of_mem ht)
  · obtain ⟨W, S, R, hT, hW, hlength, hS, hR⟩ := h.shape
    obtain ⟨W, SR, rfl, rfl, hSR⟩ := List.map_eq_append_iff.1 hT
    obtain ⟨S, R, rfl, rfl, rfl⟩ := List.map_eq_append_iff.1 hSR
    exact ⟨W, S, R, rfl, by simpa using hW, by simpa using hlength, by simpa using hS, by simpa using hR⟩
  · intro X t Y hXY ht
    have := h.line (X.map Token.lexeme) t.lexeme (Y.map Token.lexeme) (by rw [← List.map_append, hXY]; simp) ht
    exact List.map_eq_nil_iff.1 this

lemma exists_cut (hw : isWhole s) (h : tokens s = P ++ (R ++ Q)) (hP : OpensStatement P) :
    ∃ P' L T G, IsCut s P R Q (widenCut s ⟨reach P, reach (P ++ R)⟩) P' L T G := by
  obtain ⟨P₀, u, G₀, rfl, hu, hG₀⟩ := hP
  have hlex : lex s = (P₀ ++ u :: G₀).map Token.lexeme ++ (R.map Token.lexeme ++ Q.map Token.lexeme) := by
    rw [← map_lexeme_tokens, h]
    simp
  have hs : s = joined ((P₀ ++ u :: G₀).map Token.lexeme) ++ (joined (R.map Token.lexeme) ++ joined (Q.map Token.lexeme)) := by
    rw [← joined_append, ← joined_append, ← hlex, joined_lex]
  have hQ : lex (joined (Q.map Token.lexeme)) = Q.map Token.lexeme := lex_joined_right (by rw [hlex, ← List.append_assoc])
  have hat : Text.IsAt s (reach (P₀ ++ u :: G₀ ++ R)) (joined (Q.map Token.lexeme)) :=
    ⟨_, by rw [← List.append_assoc] at hs; exact hs, by simp [reach]⟩
  have hhead : Text.slice s 0 (reach (P₀ ++ u :: G₀)) = joined ((P₀ ++ u :: G₀).map Token.lexeme) := by
    conv_lhs => rw [hs]
    simpa [reach] using Text.slice_width_append (a := []) (b := joined ((P₀ ++ u :: G₀).map Token.lexeme))
      (c := joined (R.map Token.lexeme) ++ joined (Q.map Token.lexeme))
  have hboundary := hat.isBoundary_behind
  rw [widenCut_eq, hhead]
  split
  · next htrim =>
    -- the cut stands on lines of its own
    obtain ⟨T, G, hbehind⟩ := takesBehind_own hQ hat
    have hmem : ∀ m ∈ lex s, m ∈ lex s ∧ m.isSound := fun m hm => ⟨hm, isWhole_iff.1 hw m hm⟩
    rw [List.map_append, List.map_cons] at htrim ⊢
    obtain ⟨hbreak, hblank, hwidth⟩ := blanks_of_lineHead
      (fun m hm => hmem m (by rw [hlex, List.map_append, List.map_cons]; exact List.mem_append_left _ hm)) hu (by simpa using hG₀) htrim
    have hkind : u.kind = .newline := congrArg Lexeme.kind hbreak
    have hstart : reach (P₀ ++ u :: G₀) - (Text.lastLine (joined (P₀.map Token.lexeme ++ u.lexeme :: G₀.map Token.lexeme))).width =
        reach (P₀ ++ [u]) := by
      rw [hwidth, ← List.singleton_append, ← List.append_assoc, reach_append (Q := G₀)]
      exact Nat.add_sub_cancel _ _
    obtain ⟨T, G, hcut⟩ := isCut_of_takesBehind hbehind (List.append_cons _ _ _) (by simpa using hblank)
      (.inr ⟨u, by rw [List.getLast?_concat]; rfl, hkind⟩) hstart
      hboundary.2
    exact ⟨_, _, T, G, hcut⟩
  · obtain ⟨T, G, hbehind⟩ := takesBehind_shared hQ hat
    obtain ⟨T, G, hcut⟩ := isCut_of_takesBehind hbehind (List.append_nil _).symm (by simp) (.inl rfl) rfl hboundary.1
    exact ⟨_, _, T, G, hcut⟩

namespace IsCut

/-- A cut does not end inside of a token, blanks apart, and its code is that of the run and of what it takes behind. -/
lemma whole_and_code (hc : IsCut s P R Q c P' L T G) (h : tokens s = P ++ (R ++ Q)) :
    (∀ t ∈ tokens s, t.kind ≠ .blank → t.isWithin c ∨ t.stop ≤ c.start ∨ c.stop ≤ t.start) ∧
    (tokens s).filter (fun t => t.kind.isSignificant && t.isWithin c) = (R ++ T).filter (·.kind.isSignificant) := by
  obtain ⟨K, rfl⟩ := hc.isPrefix
  have hsplit : tokens s = P' ++ ((L ++ (R ++ T)) ++ (G ++ K)) := by
    rw [h, hc.front]
    simp
  have hlt : ∀ t ∈ tokens s, t.start < t.stop := fun t ht => start_lt_stop ht
  have hfront : ∀ t ∈ P', t.stop ≤ c.start := fun t ht => hc.start ▸ stop_le_reach hsplit ht
  have hinside : ∀ t ∈ L ++ (R ++ T), t.isWithin c := by
    intro t ht
    have hstart := reach_le_start hsplit (List.mem_append_left _ ht)
    have hstop := stop_le_reach (hsplit.trans (List.append_assoc P' _ _).symm) (List.mem_append_right _ ht)
    have hlower := hc.lower
    rw [hc.front, List.append_assoc] at hlower
    simp only [Token.isWithin, Bool.and_eq_true, decide_eq_true_eq, hc.start]
    exact ⟨hstart, hstop.trans hlower⟩
  have hbehind : ∀ t ∈ K, c.stop ≤ t.start := by
    intro t ht
    have hK : tokens s = (P' ++ (L ++ (R ++ (T ++ G)))) ++ K := by
      rw [hsplit]
      simp
    have hupper := hc.upper
    rw [hc.front, List.append_assoc] at hupper
    exact hupper.trans (reach_le_start hK ht)
  constructor
  · intro t ht hblank
    rw [hsplit] at ht
    simp only [List.mem_append] at ht
    rcases ht with ht | ht | ht | ht
    · exact .inr (.inl (hfront t ht))
    · exact .inl (hinside t (by simpa using ht))
    · exact absurd (hc.blank t ht) hblank
    · exact .inr (.inr (hbehind t ht))
  · rw [hsplit] at hlt ⊢
    rw [List.filter_append, List.filter_append, List.filter_eq_nil_iff.2, List.nil_append, List.filter_append, List.filter_append G K,
      (List.filter_eq_nil_iff (l := L)).2, (List.filter_eq_nil_iff (l := G)).2, (List.filter_eq_nil_iff (l := K)).2,
      List.nil_append, List.nil_append, List.append_nil]
    · refine List.filter_congr fun t ht => ?_
      rw [hinside t (List.mem_append_right _ ht), Bool.and_true]
    · intro t ht
      have := hbehind t ht
      have := hlt t (by simp [ht])
      simp only [Token.isWithin, Bool.and_eq_true, decide_eq_true_eq]
      omega
    · intro t ht
      simp [hc.blank t ht, Kind.isSignificant]
    · intro t ht
      simp [hc.blank_front t ht, Kind.isSignificant]
    · intro t ht
      have := hfront t ht
      have := hlt t (by simp [ht])
      simp only [Token.isWithin, Bool.and_eq_true, decide_eq_true_eq]
      omega

/-- A cut begins behind the code in front of it. -/
lemma exists_front (hc : IsCut s (P₀ ++ M) R Q c P' L T G) (hlast : ∃ t ∈ P₀.getLast?, t.kind.isSignificant) :
    ∃ X, P' = P₀ ++ X ∧ M = X ++ L := by
  rcases List.append_eq_append_iff.1 hc.front with ⟨w, hw, hM⟩ | ⟨w, hw, hL⟩
  · exact ⟨w, hw, hM⟩
  · rcases List.eq_nil_or_concat' w with rfl | ⟨w, u, rfl⟩
    · exact ⟨[], by simpa using hw.symm, by simpa using hL.symm⟩
    · obtain ⟨t, ht, hsig⟩ := hlast
      rw [hw, ← List.append_assoc, List.getLast?_concat] at ht
      cases ht
      rw [hc.blank_front u (by simp [hL])] at hsig
      cases hsig

/-- What a cut takes behind its run is no code but a semicolon. -/
lemma semi_of_isSignificant (hc : IsCut s P R Q c P' L T G) (ht : t ∈ T ++ G) (hsig : t.kind.isSignificant) : t.kind = .semi := by
  obtain ⟨W, S, R, rfl, hW, -, hS, hR⟩ := hc.shape
  simp only [List.mem_append] at ht
  rcases ht with (ht | ht | ht) | ht
  · rw [hW t ht] at hsig
    cases hsig
  · exact hS t ht
  · rw [hR t ht] at hsig
    cases hsig
  · rw [hc.blank t ht] at hsig
    cases hsig

/-- A cut ends in front of the code behind it. -/
lemma exists_behind (hc : IsCut s P R (M ++ Q) c P' L T G) (hhead : ∃ t ∈ Q.head?, t.kind.isSignificant ∧ t.kind ≠ .semi) :
    ∃ X, M = T ++ (G ++ X) := by
  obtain ⟨K, hK⟩ := hc.isPrefix
  rcases List.append_eq_append_iff.1 hK with ⟨w, hw, -⟩ | ⟨w, hw, hQ⟩
  · exact ⟨w, by rw [hw, List.append_assoc]⟩
  · rcases w with _ | ⟨u, w⟩
    · exact ⟨[], by simpa using hw.symm⟩
    · obtain ⟨t, ht, hsig, hsemi⟩ := hhead
      rw [hQ] at ht
      cases ht
      exact absurd (hc.semi_of_isSignificant (by simp [hw]) hsig) hsemi

lemma stop_le (hc : IsCut s P R (M ++ Q) c P' L T G) (hhead : ∃ t ∈ Q.head?, t.kind.isSignificant ∧ t.kind ≠ .semi) :
    c.stop ≤ reach (P ++ (R ++ M)) := by
  obtain ⟨X, rfl⟩ := hc.exists_behind hhead
  have := hc.upper
  simp only [reach_append] at this ⊢
  omega

lemma le_start (hc : IsCut s (P₀ ++ M) R Q c P' L T G) (hlast : ∃ t ∈ P₀.getLast?, t.kind.isSignificant) : reach P₀ ≤ c.start := by
  obtain ⟨X, hX, -⟩ := hc.exists_front hlast
  rw [hc.start, hX, reach_append]
  exact Nat.le_add_right _ _

lemma start_le_stop (hc : IsCut s P R Q c P' L T G) : c.start ≤ c.stop := by
  have hlower := hc.lower
  rw [hc.front] at hlower
  simp only [reach_append] at hlower
  rw [hc.start]
  omega

lemma isBoundary_start (hc : IsCut s P R Q c P' L T G) (h : tokens s = P ++ (R ++ Q)) : Text.IsBoundary s c.start := by
  have hs : s = joined (P'.map Token.lexeme) ++ joined ((L ++ (R ++ Q)).map Token.lexeme) := by
    rw [← joined_append, ← List.map_append, ← List.append_assoc P', ← hc.front, ← h, map_lexeme_tokens, joined_lex]
  rw [hc.start]
  exact ⟨_, _, hs, rfl⟩

/-- **Cuts do not overlap.** -/
theorem stop_le_start {L' T' G' P₁ : List Token} (hc : IsCut s P R (M ++ (R' ++ Q')) c P' L T G)
    (hc' : IsCut s (P ++ (R ++ M)) R' Q' c' P₁ L' T' G') (hlast : ∃ t ∈ R.getLast?, t.kind.isSignificant)
    (hhead : ∃ t ∈ R'.head?, t.kind.isSignificant ∧ t.kind ≠ .semi) : c.stop ≤ c'.start := by
  have hlast' : ∃ t ∈ (P ++ R).getLast?, t.kind.isSignificant := by
    obtain ⟨t, ht, hsig⟩ := hlast
    exact ⟨t, by rw [List.getLast?_append, ht]; rfl, hsig⟩
  rw [← List.append_assoc] at hc'
  obtain ⟨X, hX, hM⟩ := hc'.exists_front hlast'
  obtain ⟨Y, hY⟩ := hc.exists_behind (by
    obtain ⟨t, ht, h⟩ := hhead
    exact ⟨t, by rw [List.head?_append, ht]; rfl, h⟩)
  have hupper := hc.upper
  rw [hc'.start, hX]
  -- the second cut begins behind what the first one takes
  rw [hM, ← List.append_assoc] at hY
  rcases List.append_eq_append_iff.1 hY with ⟨w, hw, hL⟩ | ⟨w, rfl, -⟩
  · -- unless it takes blanks that the first one takes too, and then a line break stands in between
    rcases hc'.line_front with hnil | ⟨t, ht, hnewline⟩
    · obtain ⟨rfl, -⟩ : w = [] ∧ Y = [] := by simpa [hnil] using hL.symm
      rw [List.append_nil] at hw
      rw [← hw]
      simpa using hupper
    · rcases List.eq_nil_or_concat' X with rfl | ⟨X, u, rfl⟩
      · obtain ⟨u, hu, hsig⟩ := hlast'
        rw [hX, List.append_nil, hu] at ht
        cases ht
        rw [hnewline] at hsig
        cases hsig
      · rw [hX, ← List.append_assoc, List.getLast?_concat] at ht
        cases ht
        have := hc.line X t w (by rw [hw]; simp) hnewline
        rw [this, List.append_nil] at hw
        rw [← hw]
        simpa using hupper
  · simp only [reach_append] at hupper ⊢
    omega

end IsCut

end Cuts

end RuleWeaver
