import RuleWeaver.Proofs.Detection.Declared
import RuleWeaver.Proofs.Initializer.Variables
import RuleWeaver.Proofs.Path
import RuleWeaver.Proofs.Source.Comments
import RuleWeaver.Proofs.Source.ImportSection
import RuleWeaver.Proofs.Source.Tidying

/-!
# Declared function literals

A function literal becomes a function by a change of its lines: carriage returns in front of line breaks go, and one tab behind
each line break (`functionOfLiteral_eq`).  Blanks, line breaks and comments take that well.  Raw strings go on over lines, so
theirs change too (`code_relined`).
-/

namespace RuleWeaver

open Source

variable {s t u v w y : Text} {c : Char} {fresh : Bool} {l : Lexeme} {ls : List Lexeme} {n : Nat}

/-! ### Lines -/

/-- A text without the carriage returns in front of line breaks and without one tab behind each.  `fresh` tells whether the text
stands behind a line break. -/
def relined (fresh : Bool) : Text → Text
  | [] => []
  | c :: s =>
    if (c = '\r' ∧ s.head? = some '\n') ∨ (fresh ∧ c = '\t') then relined false s else c :: relined (c = '\n') s

/-- Whether what follows a text stands behind a line break. -/
def freshAfter (fresh : Bool) (u : Text) : Bool := (u.getLast?.map (fun c => decide (c = '\n'))).getD fresh

lemma freshAfter_cons : freshAfter fresh (c :: u) = freshAfter (c = '\n') u := by
  cases u with
  | nil => rfl
  | cons d u => rfl

lemma relined_append (h : u.getLast? = some '\r' → v.head? ≠ some '\n') :
    relined fresh (u ++ v) = relined fresh u ++ relined (freshAfter fresh u) v := by
  induction u generalizing fresh with
  | nil => rfl
  | cons c u ih =>
    have hhead : c = '\r' ∧ (u ++ v).head? = some '\n' ↔ c = '\r' ∧ u.head? = some '\n' := by
      cases u with
      | nil =>
        refine ⟨fun ⟨hc, hv⟩ => absurd hv (h (by rw [hc]; rfl)), fun ⟨_, hv⟩ => by cases hv⟩
      | cons d u => rfl
    have hrest : u.getLast? = some '\r' → v.head? ≠ some '\n' := fun hu => h (by rw [List.getLast?_cons, hu]; rfl)
    have hfresh : c = '\t' → freshAfter false u = freshAfter fresh (c :: u) := by
      rintro rfl
      rw [freshAfter_cons]
      rfl
    have hcarriage : c = '\r' → freshAfter false u = freshAfter fresh (c :: u) := by
      rintro rfl
      rw [freshAfter_cons]
      rfl
    rw [List.cons_append, relined, relined]
    simp only [hhead]
    split
    · next hc =>
      rw [ih hrest]
      congr 2
      exact hc.elim (fun hc => hcarriage hc.1) fun hc => hfresh hc.2
    · rw [ih hrest, freshAfter_cons]
      rfl

lemma relined_sublist : (relined fresh u).Sublist u := by
  induction u generalizing fresh with
  | nil => exact .slnil
  | cons c u ih =>
    rw [relined]
    split
    · exact ih.cons c
    · exact ih.cons_cons c

/-- Within a line nothing goes. -/
lemma relined_of_not_mem (h : '\n' ∉ u) : relined false u = u := by
  induction u with
  | nil => rfl
  | cons c u ih =>
    rw [List.mem_cons, not_or] at h
    obtain ⟨hc, hu⟩ := h
    have hhead : u.head? ≠ some '\n' := fun hhead => hu (List.mem_of_mem_head? hhead)
    rw [relined, if_neg (by simp [hhead]), decide_eq_false (Ne.symm hc), ih hu]

lemma relined_cons_of_ne (hr : c ≠ '\r') (ht : c ≠ '\t') : relined fresh (c :: u) = c :: relined (c = '\n') u := by
  rw [relined, if_neg (by simp [hr, ht])]

lemma relined_newline : relined fresh ('\n' :: u) = '\n' :: relined true u := relined_cons_of_ne (by decide) (by decide)

lemma relined_carriage : relined fresh (u ++ '\r' :: '\n' :: v) = relined fresh u ++ '\n' :: relined true v := by
  rw [relined_append (by simp), relined, if_pos (.inl ⟨rfl, rfl⟩), relined_newline]

/-- What stands behind keeps its first character, but for a carriage return in front of a line break. -/
lemma head?_relined : (relined false y).head? = y.head? ∨ y.head? = some '\r' ∧ (relined false y).head? = some '\n' := by
  cases y with
  | nil => exact .inl rfl
  | cons c y =>
    rw [relined]
    split
    · next hc =>
      obtain ⟨rfl, hy⟩ := hc.resolve_right (by simp)
      obtain ⟨y, rfl⟩ : ∃ y', y = '\n' :: y' := ⟨y.tail, List.eq_cons_of_mem_head? hy⟩
      exact .inr ⟨rfl, by rw [relined_newline]; rfl⟩
    · exact .inl rfl

/-! ### Lexemes -/

lemma lex_append_of_separates (hl : IsLexed [l]) (h : l.separates y) : lex (l.text ++ y) = l :: lex y := by
  obtain ⟨c, u, v, hs, hm, htext, hv⟩ := lex_cons_inv hl.1
  obtain ⟨k, t⟩ := l
  obtain rfl : t = c :: u := htext
  obtain rfl : v = [] := by rw [← joined_lex (s := v), hv, joined_nil]
  rw [List.append_nil] at hm
  exact lex_cons ((munch_append_iff (hl.2 _ List.mem_cons_self)).2 ⟨hm, h⟩)

lemma separates_of_isLexed (h : IsLexed (l :: ls)) : l.separates (joined ls) := by
  obtain ⟨c, u, v, hs, hm, htext, hv⟩ := lex_cons_inv h.1
  obtain ⟨k, t⟩ := l
  obtain rfl : t = c :: u := htext
  rw [← hv, joined_lex]
  exact ((munch_append_iff (h.2 _ List.mem_cons_self)).1 hm).2

lemma all_head?_relined {p : Char → Bool} (hp : p '\n') (h : y.head?.all p) : (relined false y).head?.all p := by
  rcases head?_relined (y := y) with hy | ⟨-, hy⟩ <;> rw [hy]
  · exact h
  · exact hp

lemma isPrefixOf_dots_relined (h : ['.', '.'].isPrefixOf (relined false y)) : ['.', '.'].isPrefixOf y := by
  have hdot : ∀ {y}, (relined false y).head? = some '.' → y.head? = some '.' := by
    intro y hy
    rcases head?_relined (y := y) with h | ⟨-, h⟩
    · rwa [h] at hy
    · rw [h] at hy
      cases hy
  obtain ⟨z, hz⟩ := List.isPrefixOf_iff_prefix.1 h
  obtain ⟨y, rfl⟩ : ∃ y', y = '.' :: y' := ⟨y.tail, List.eq_cons_of_mem_head? (hdot (by rw [← hz]; rfl))⟩
  rw [relined_cons_of_ne (by decide) (by decide)] at hz
  obtain ⟨-, hz⟩ := List.cons.inj hz
  obtain ⟨y, rfl⟩ : ∃ y', y = '.' :: y' := ⟨y.tail, List.eq_cons_of_mem_head? (hdot (by rw [← show _ = relined false y from hz]; rfl))⟩
  rfl

/-- A lexeme stays when lines change behind it. -/
lemma separates_relined (h : l.separates y) : l.separates (relined false y) := by
  unfold Lexeme.separates at h ⊢
  split at h <;> first
    | exact all_head?_relined rfl h
    | rfl
    | skip
  · exact Bool.or_eq_true_iff.2 ((Bool.or_eq_true_iff.1 h).imp_right (all_head?_relined rfl))
  · rw [Bool.not_eq_true', Bool.eq_false_iff] at h ⊢
    exact fun hdots => h (isPrefixOf_dots_relined hdots)

/-- What a lexeme with code becomes. -/
def Source.Lexeme.relined (l : Lexeme) : Lexeme := if l.kind = .rawString then ⟨.rawString, RuleWeaver.relined false l.text⟩ else l

lemma commentEnd?_relined (h : commentEnd? u = some u.length) :
    commentEnd? (relined fresh u) = some (relined fresh u).length := by
  induction u generalizing fresh with
  | nil => cases h
  | cons c u ih =>
    rw [commentEnd?_cons] at h
    split at h
    · next hend =>
      obtain ⟨rfl, hhead⟩ := hend
      obtain ⟨d, hd⟩ : ∃ d, u = [d] := List.length_eq_one_iff.1 (by simpa using (Option.some.inj h).symm)
      rw [hd] at hhead ⊢
      cases hhead
      rw [relined_cons_of_ne (by decide) (by decide), relined_cons_of_ne (by decide) (by decide)]
      rfl
    · next hend =>
      obtain ⟨n, hn, hlength⟩ := Option.map_eq_some_iff.1 h
      obtain rfl : n = u.length := by simpa using hlength
      rw [relined]
      split
      · exact ih hn
      · rw [commentEnd?_cons, if_neg, ih hn]
        · rfl
        · rintro ⟨rfl, hhead⟩
          rcases head?_relined (y := u) with hu | ⟨-, hu⟩
          · exact hend ⟨rfl, hu ▸ hhead⟩
          · rw [show (decide ('*' = '\n')) = false from rfl, hu] at hhead
            cases hhead

lemma newline_mem_relined (h : '\n' ∈ u) : '\n' ∈ relined fresh u := by
  induction u generalizing fresh with
  | nil => cases h
  | cons c u ih =>
    rw [relined]
    split
    · next hc =>
      refine ih ((List.mem_cons.1 h).resolve_left ?_)
      rintro rfl
      simp at hc
    · rcases List.mem_cons.1 h with rfl | h
      · exact List.mem_cons_self
      · exact List.mem_cons_of_mem _ (ih h)

lemma head?_relined_of_not_isBlank (h : y.head?.all (!isBlank ·)) : (relined fresh y).head? = y.head? := by
  cases y with
  | nil => rfl
  | cons c y =>
    have hc : isBlank c = false := by simpa using h
    rw [relined_cons_of_ne (by rintro rfl; cases hc) (by rintro rfl; cases hc)]
    rfl

/-- What lies in front of a place loses characters, and what stands behind is changed by itself. -/
lemma exists_relined_append (fresh : Bool) (u y : Text) :
    ∃ w fresh', relined fresh (u ++ y) = w ++ relined fresh' y ∧ w.Sublist u := by
  by_cases h : u.getLast? = some '\r' ∧ y.head? = some '\n'
  · obtain ⟨u, rfl⟩ := List.getLast?_eq_some_iff.1 h.1
    obtain ⟨y, rfl⟩ : ∃ y', y = '\n' :: y' := ⟨y.tail, List.eq_cons_of_mem_head? h.2⟩
    refine ⟨relined fresh u, true, ?_, relined_sublist.trans (List.sublist_append_left _ _)⟩
    rw [List.append_assoc, List.singleton_append, relined_carriage, relined_newline]
  · exact ⟨relined fresh u, _, relined_append fun hu hy => h ⟨hu, hy⟩, relined_sublist⟩

/-- A lexeme that ends in no blank is changed by itself. -/
lemma relined_text_append (hlast : ∀ x ∈ l.text.getLast?, isBlank x = false ∧ x ≠ '\n') (hne : l.text ≠ []) :
    relined fresh (l.text ++ y) = relined fresh l.text ++ relined false y := by
  obtain ⟨x, hx⟩ := Option.ne_none_iff_exists'.1 (mt List.getLast?_eq_none_iff.1 hne)
  obtain ⟨hblank, hline⟩ := hlast x hx
  rw [relined_append, freshAfter, hx, Option.map_some, Option.getD_some, decide_eq_false hline]
  rintro hr -
  obtain rfl := Option.some.inj (hx.symm.trans hr)
  cases hblank

lemma isLexed_singleton {k : Kind} (hm : munch c u = (k, u.length)) (hs : Lexeme.isSound ⟨k, c :: u⟩) : IsLexed [⟨k, c :: u⟩] := by
  refine ⟨?_, by simpa using hs⟩
  have := lex_cons (y := []) (by rwa [List.append_nil])
  simpa using this

/-- A raw string stays one. -/
lemma relined_raw (hm : munchRaw u = (.rawString, u.length)) :
    IsLexed [⟨.rawString, relined fresh ('\x60' :: u)⟩] ∧ relined fresh ('\x60' :: u) = relined false ('\x60' :: u) := by
  obtain ⟨v, rfl⟩ : ∃ v, u = v ++ ['\x60'] := List.getLast?_eq_some_iff.1 (getLast?_raw hm)
  have hv : v.all (· ≠ '\x60') := by
    simp only [munchRaw] at hm
    split at hm
    · have hrun := (Prod.mk.inj hm).2
      rw [List.length_append, List.length_singleton, Nat.add_right_cancel_iff] at hrun
      exact (Text.run_append_eq_length_iff.1 hrun).1
    · cases hm
  have hbody : relined false (v ++ ['\x60']) = relined false v ++ ['\x60'] := by
    rw [relined_append (by simp), relined_cons_of_ne (by decide) (by decide)]
    rfl
  have htext : ∀ fresh, relined fresh ('\x60' :: (v ++ ['\x60'])) = '\x60' :: (relined false v ++ ['\x60']) := fun fresh => by
    rw [relined_cons_of_ne (by decide) (by decide), ← hbody]
    rfl
  rw [htext, htext]
  refine ⟨isLexed_singleton ?_ rfl, rfl⟩
  have hall : (relined false v).all (· ≠ '\x60') :=
    List.all_eq_true.2 fun x hx => List.all_eq_true.1 hv x (relined_sublist.subset hx)
  show munchRaw _ = _
  rw [munchRaw_append hall, List.length_append]
  rfl

/-- A comment stays one. -/
lemma relined_block (hv : commentEnd? v = some v.length) (hsep : Lexeme.separates ⟨.blockComment, '/' :: '*' :: v⟩ y) :
    IsLexed [⟨.blockComment, '/' :: '*' :: relined false v⟩] ∧
      Lexeme.separates ⟨.blockComment, '/' :: '*' :: relined false v⟩ (relined false y) := by
  refine ⟨isLexed_singleton ?_ rfl, ?_⟩
  · exact munchSlash_star_eq.2 ⟨commentEnd?_relined hv, Nat.not_lt.2 (Text.run_le_length (u := '*' :: relined false v))⟩
  · by_cases hline : '\n' ∈ v
    · -- a line break is no character of operators
      have hany : ('/' :: '*' :: relined false v).any (!isOperatorChar ·) := by
        refine List.any_eq_true.2 ⟨'\n', ?_, rfl⟩
        exact List.mem_cons_of_mem _ (List.mem_cons_of_mem _ (newline_mem_relined hline))
      exact Bool.or_eq_true_iff.2 (.inl hany)
    · rw [relined_of_not_mem hline]
      exact separates_relined hsep

/-- On one line a lexeme that ends in no blank stays the same. -/
lemma relined_short {k : Kind} (hm : munch c u = (k, u.length)) (hline : '\n' ∉ c :: u) (hlast : ∀ x ∈ (c :: u).getLast?, isBlank x = false) :
    relined fresh (c :: u) = c :: u := by
  have hc : isBlank c = false := by
    rw [Bool.eq_false_iff]
    intro hc
    have hall : (c :: u).all isBlank := by
      have hmunch : munch c u = (.blank, Text.run isBlank u) := by simp [munch, hc]
      rw [hmunch] at hm
      rw [List.all_cons, hc, Text.run_eq_length_iff.1 (Prod.mk.inj hm).2]
      rfl
    obtain ⟨x, hx⟩ := Option.ne_none_iff_exists'.1 (mt List.getLast?_eq_none_iff.1 (List.cons_ne_nil c u))
    have := hlast x hx
    rw [List.all_eq_true.1 hall x (List.mem_of_getLast? hx)] at this
    cases this
  rw [List.mem_cons, not_or] at hline
  rw [relined_cons_of_ne (by rintro rfl; cases hc) (by rintro rfl; cases hc), decide_eq_false (Ne.symm hline.1),
    relined_of_not_mem hline.2]

/-- One lexeme and the change of its lines. -/
lemma lex_relined_step (h : IsLexed (l :: ls)) (fresh : Bool) :
    ∃ X fresh', lex (relined fresh (joined (l :: ls))) = X ++ lex (relined fresh' (joined ls)) ∧
      X.filter (·.kind.isSignificant) = ([l].filter (·.kind.isSignificant)).map Lexeme.relined := by
  have hsep := separates_of_isLexed h
  have hlexed : IsLexed [l] := IsLexed.left (B := ls) h
  have hsound := h.2 l List.mem_cons_self
  have hmem : l ∈ lex (joined (l :: ls)) := by
    rw [h.1]
    exact List.mem_cons_self
  rw [joined_cons]
  cases form_of_mem_lex hmem hsound with
  | blank hk hall =>
    obtain ⟨w, fresh', hw, hsublist⟩ := exists_relined_append fresh l.text (joined ls)
    rw [Lexeme.separates, hk] at hsep
    have hcode : [l].filter (·.kind.isSignificant) = [] := List.filter_cons_of_neg (by simp [hk, Kind.isSignificant])
    rw [hw, hcode]
    by_cases hnil : w = []
    · exact ⟨[], fresh', by rw [hnil]; rfl, rfl⟩
    · have hblank : w.all isBlank := List.all_eq_true.2 fun x hx => List.all_eq_true.1 hall x (hsublist.subset hx)
      exact ⟨[⟨.blank, w⟩], fresh', lex_blanks_append hnil hblank (by rwa [head?_relined_of_not_isBlank hsep]), rfl⟩
  | lineBreak hl =>
    subst hl
    exact ⟨[lineBreak], true, by rw [lineBreak, List.singleton_append, relined_newline, lex_newline]; rfl, rfl⟩
  | comment t hl ht =>
    subst hl
    obtain ⟨w, fresh', hw, hsublist⟩ := exists_relined_append false t (joined ls)
    have hhead : (relined fresh' (joined ls)).head?.all (· = '\n') := by
      have hline : (joined ls).head?.all (· = '\n') := hsep
      cases hy : joined ls with
      | nil => rfl
      | cons d y =>
        rw [hy] at hline
        obtain rfl : d = '\n' := by simpa using hline
        rw [relined_newline]
        rfl
    refine ⟨[⟨.lineComment, '/' :: '/' :: w⟩], fresh', ?_, rfl⟩
    rw [List.cons_append, List.cons_append, relined_cons_of_ne (by decide) (by decide), relined_cons_of_ne (by decide) (by decide)]
    exact (congrArg (fun v => lex ('/' :: '/' :: v)) hw).trans
      (lex_lineComment_append (fun hmem => ht (hsublist.subset hmem)) hhead)
  | long hk v d hd ht =>
    have hlast : ∀ x ∈ l.text.getLast?, isBlank x = false ∧ x ≠ '\n' := by
      rw [ht, ← List.cons_append, List.getLast?_concat]
      rintro _ ⟨⟩
      rcases hd with rfl | rfl <;> decide
    rw [relined_text_append hlast (by simp [ht])]
    obtain ⟨c, u, htext, hm⟩ := exists_munch_of_mem hmem hsound
    obtain ⟨k, t⟩ := l
    obtain rfl : t = c :: u := htext
    cases wholeForm hm (kind_ne_stray hsound) with
    | raw hk hc hu =>
      subst hc hk
      obtain ⟨hraw, hfresh⟩ := @relined_raw _ fresh hu
      refine ⟨[⟨.rawString, relined fresh ('\x60' :: u)⟩], false, lex_append_of_separates hraw rfl, ?_⟩
      rw [hfresh]
      rfl
    | blockComment hk hc v hu hv =>
      subst hc hk hu
      obtain ⟨hblock, hsep'⟩ := relined_block hv hsep
      refine ⟨[⟨.blockComment, '/' :: '*' :: relined false v⟩], false, ?_, rfl⟩
      rw [relined_cons_of_ne (by decide) (by decide), relined_cons_of_ne (by decide) (by decide)]
      exact lex_append_of_separates hblock hsep'
    | blank hk' | number hk' | dot hk' | ellipsis hk' | lineComment hk' | single hk' => rcases hk with rfl | rfl <;> cases hk'
    | quoted hk' | operator hk' => rcases hk with rfl | rfl <;> simp at hk'
    | word hk' =>
      have hword : wordKind (c :: u) = .rawString ∨ wordKind (c :: u) = .blockComment := by rwa [← hk']
      revert hword
      fun_cases wordKind (c :: u) <;> simp
  | short hk hline hlast =>
    have hlast' : ∀ x ∈ l.text.getLast?, isBlank x = false ∧ x ≠ '\n' := fun x hx =>
      ⟨hlast x hx, fun hx' => hline (hx' ▸ List.mem_of_getLast? hx)⟩
    obtain ⟨c, u, htext, hm⟩ := exists_munch_of_mem hmem hsound
    obtain ⟨k, t⟩ := l
    obtain rfl : t = c :: u := htext
    have hsame : ∀ fresh, relined fresh (c :: u) = c :: u := fun fresh => relined_short hm hline hlast
    rw [relined_text_append hlast' (List.cons_ne_nil c u)]
    refine ⟨[⟨k, c :: u⟩], false, ?_, ?_⟩
    · rw [hsame]
      exact lex_append_of_separates hlexed (separates_relined hsep)
    · have hl : Lexeme.relined ⟨k, c :: u⟩ = ⟨k, c :: u⟩ := by
        rw [Lexeme.relined]
        split
        · next hk => rw [hsame, ← show k = .rawString from hk]
        · rfl
      rw [List.filter_cons]
      split
      · rw [List.map_cons, hl]
        rfl
      · rfl

/-- The lexemes of a text that carry meaning. -/
def Source.codeLexemes (s : Text) : List Lexeme := (lex s).filter (·.kind.isSignificant)

/-- **Only raw strings take part in the change of lines.** -/
theorem code_relined (h : IsLexed ls) (fresh : Bool) :
    codeLexemes (relined fresh (joined ls)) = (ls.filter (·.kind.isSignificant)).map Lexeme.relined := by
  induction ls generalizing fresh with
  | nil =>
    rw [joined_nil, relined, codeLexemes, lex_nil]
    rfl
  | cons l ls ih =>
    obtain ⟨X, fresh', hlex, hX⟩ := lex_relined_step h fresh
    have hrest := ih (IsLexed.right (A := [l]) h) fresh'
    rw [codeLexemes] at hrest ⊢
    rw [hlex, List.filter_append, hX, hrest, ← List.map_append, ← List.filter_append, List.singleton_append]

/-! ### Literals -/

/-- A line without a carriage return at its end. -/
def chopped (line : Text) : Text := (Text.stripEnd? "\r" line).getD line

lemma textLines_append (hline : '\n' ∉ u) : textLines (u ++ '\n' :: v) = chopped u :: textLines v := by
  have hsplit : Text.split (· = '\n') (u ++ '\n' :: v) = u :: Text.split (· = '\n') v := by
    rw [Text.split_append_cons (by simp), Text.split_of_forall fun c hc => by simpa using ne_of_mem_of_not_mem hc hline]
    rfl
  simp only [textLines, hsplit, List.dropLast_cons_of_ne_nil Text.split_ne_nil, List.map_cons, List.cons_append, chopped]
  obtain ⟨ps, p, hp⟩ := List.eq_nil_or_concat' (Text.split (· = '\n') v) |>.resolve_left Text.split_ne_nil
  have hlast : (u :: (ps ++ [p])).getLast? = some p := by rw [← List.cons_append, List.getLast?_concat]
  rw [hp, hlast, List.getLast?_concat]

lemma textLines_of_not_mem (hline : '\n' ∉ u) (hne : u ≠ []) : textLines u = [u] := by
  have hsplit : Text.split (· = '\n') u = [u] := Text.split_of_forall fun c hc => by simpa using ne_of_mem_of_not_mem hc hline
  simp [textLines, hsplit, hne]

lemma chopped_append_carriage : chopped (u ++ ['\r']) = u := by
  simp [chopped, Text.stripEnd?, Text.strip?]

lemma chopped_of_ne (h : u.getLast? ≠ some '\r') : chopped u = u := by
  rw [chopped, Text.stripEnd?]
  cases hu : Text.strip? "\r".toList.reverse u.reverse with
  | none => rfl
  | some v =>
    rw [Text.strip?_eq_some_iff] at hu
    have hrev := congrArg List.reverse hu
    rw [List.reverse_reverse, List.reverse_append, List.reverse_reverse] at hrev
    exact absurd (by rw [hrev]; exact List.getLast?_concat) h

/-- One line. -/
lemma relined_line (hline : '\n' ∉ u) : relined false (u ++ '\n' :: v) = chopped u ++ '\n' :: relined true v := by
  by_cases h : u.getLast? = some '\r'
  · obtain ⟨u, rfl⟩ := List.getLast?_eq_some_iff.1 h
    rw [chopped_append_carriage, List.append_assoc, List.singleton_append, relined_carriage,
      relined_of_not_mem fun hmem => hline (List.mem_append_left _ hmem)]
  · rw [chopped_of_ne h, relined_append fun hu => absurd hu h, relined_of_not_mem hline, relined_newline]

lemma chopped_cons (h : c = '\r' → u ≠ []) : chopped (c :: u) = c :: chopped u := by
  by_cases hu : u.getLast? = some '\r'
  · obtain ⟨u, rfl⟩ := List.getLast?_eq_some_iff.1 hu
    rw [← List.cons_append, chopped_append_carriage, chopped_append_carriage]
  · rw [chopped_of_ne hu, chopped_of_ne]
    rw [List.getLast?_cons]
    cases hlast : u.getLast? with
    | none =>
      rintro hr
      exact h (Option.some.inj hr) (List.getLast?_eq_none_iff.1 hlast)
    | some x => rwa [hlast] at hu

lemma outdent_of_ne (h : u.head? ≠ some '\t') : outdent u = u := by
  rw [outdent]
  cases hu : Text.strip? "\t".toList u with
  | none => rfl
  | some v =>
    rw [Text.strip?_eq_some_iff] at hu
    exact absurd (by rw [hu]; rfl) h

/-- One line behind a line break. -/
lemma relined_line_fresh (hline : '\n' ∉ u) : relined true (u ++ '\n' :: v) = outdent (chopped u) ++ '\n' :: relined true v := by
  cases u with
  | nil => exact relined_newline
  | cons c u =>
    rw [List.mem_cons, not_or] at hline
    by_cases hr : c = '\r' ∧ u = []
    · obtain ⟨rfl, rfl⟩ := hr
      exact relined_carriage (u := [])
    · rw [chopped_cons fun hc hu => hr ⟨hc, hu⟩]
      by_cases ht : c = '\t'
      · subst ht
        rw [List.cons_append, relined, if_pos (.inr ⟨rfl, rfl⟩), relined_line hline.2]
        rfl
      · have hhead : ¬ (c = '\r' ∧ (u ++ '\n' :: v).head? = some '\n') := by
          rintro ⟨hc, hhead⟩
          cases u with
          | nil => exact hr ⟨hc, rfl⟩
          | cons d u => exact hline.2 (by rw [List.cons_append] at hhead; cases hhead; exact List.mem_cons_self)
        rw [List.cons_append, relined, if_neg (by simp [ht] at hhead ⊢; exact hhead), decide_eq_false (Ne.symm hline.1),
          relined_line hline.2, outdent_of_ne (by simpa using ht)]
        rfl

/-- A text is a line, or a line and more text. -/
lemma exists_line (s : Text) : '\n' ∉ s ∨ ∃ u v, s = u ++ '\n' :: v ∧ '\n' ∉ u := by
  induction s with
  | nil => exact .inl (by simp)
  | cons c s ih =>
    by_cases hc : c = '\n'
    · exact .inr ⟨[], s, by rw [hc]; rfl, by simp⟩
    · rcases ih with h | ⟨u, v, rfl, hu⟩
      · exact .inl (by simp [h, Ne.symm hc])
      · exact .inr ⟨c :: u, v, rfl, by simp [hu, Ne.symm hc]⟩

/-- Whether a text ends within a line. -/
def endsInLine (s : Text) : Prop := ∃ c ∈ s.getLast?, c ≠ '\n' ∧ c ≠ '\r'

lemma endsInLine_behind (h : endsInLine (u ++ '\n' :: v)) : endsInLine v := by
  obtain ⟨c, hc, hne, hr⟩ := h
  rw [List.getLast?_append_cons] at hc
  cases v with
  | nil => exact absurd (Option.some.inj hc).symm hne
  | cons d v => exact ⟨c, by rwa [List.getLast?_cons_cons] at hc, hne, hr⟩

lemma endsInLine.ne_nil (h : endsInLine s) : s ≠ [] := by
  rintro rfl
  obtain ⟨c, hc, -⟩ := h
  cases hc

lemma endsInLine.chopped_eq (h : endsInLine s) : chopped s = s := by
  obtain ⟨c, hc, -, hr⟩ := h
  exact chopped_of_ne (by rw [hc]; simpa using hr)

/-- The lines behind a line break. -/
lemma flatMap_textLines (h : endsInLine s) :
    (textLines s).flatMap (fun line => outdent line ++ ['\n']) = relined true (s ++ ['\n']) := by
  induction hn : s.length using Nat.strongRecOn generalizing s with
  | ind n ih =>
    subst hn
    rcases exists_line s with hline | ⟨u, v, rfl, hu⟩
    · rw [textLines_of_not_mem hline h.ne_nil, relined_line_fresh hline, h.chopped_eq]
      simp [relined]
    · have hsplit : u ++ '\n' :: v ++ ['\n'] = u ++ '\n' :: (v ++ ['\n']) := by simp
      rw [textLines_append hu, List.flatMap_cons, ih v.length (by simp; omega) (endsInLine_behind h) rfl, hsplit,
        relined_line_fresh hu, List.append_assoc]
      rfl

/-- **The function of a literal** is its code with another head and with changed lines. -/
theorem functionOfLiteral_eq {name : Text} (h : endsInLine s) :
    functionOfLiteral name ("func" ++ s) = "func " ++ (name ++ relined false (s ++ ['\n'])) := by
  have hfunc : '\n' ∉ "func".toList := by decide
  rcases exists_line s with hline | ⟨u, v, rfl, hu⟩
  · have hwhole : '\n' ∉ "func".toList ++ s := by simp [hline]
    rw [functionOfLiteral, textLines_of_not_mem hwhole (by simp), relined_line hline, h.chopped_eq]
    simp [Text.strip?, relined]
  · have hwhole : '\n' ∉ "func".toList ++ u := by simp [hu]
    have hhead : chopped ("func".toList ++ u) = "func".toList ++ chopped u := by
      show chopped ('f' :: 'u' :: 'n' :: 'c' :: u) = _
      rw [chopped_cons (by simp), chopped_cons (by simp), chopped_cons (by simp), chopped_cons (by simp)]
      rfl
    have hstrip : Text.strip? "func" ("func".toList ++ chopped u) = some (chopped u) := Text.strip?_append
    rw [functionOfLiteral, ← List.append_assoc, textLines_append hwhole, hhead, List.append_assoc u, List.cons_append, relined_line hu]
    simp only [hstrip, Option.getD_some, flatMap_textLines (endsInLine_behind h)]
    simp

/-! ### Where literals come from -/

/-- Behind its keyword a function literal has certain lexemes, the last of which is its closing brace. -/
structure IsLiteral (literal : Text) (M : List Lexeme) : Prop where
  isLexed : IsLexed (⟨.funcWord, "func"⟩ :: M)
  last : M.getLast? = some ⟨.rbrace, ['\x7d']⟩
  text_eq : literal = joined (⟨.funcWord, "func"⟩ :: M)

section Calls

variable {source x : Text} {call argument current : List Token} {depth : Nat} {statement : Statement} {ss left : List Statement}
  {ms : List Removed} {m : Removed} {r : InitRegistration} {p : Text × InitRegistration}

lemma mem_splitArguments {ts : List Token} (h : argument ∈ Statement.splitArguments depth current ts) :
    argument.Sublist (current ++ ts) := by
  induction ts generalizing depth current with
  | nil =>
    rw [Statement.splitArguments] at h
    split at h
    · cases h
    · rw [List.mem_singleton.1 h, List.append_nil]
  | cons t ts ih =>
    rw [Statement.splitArguments] at h
    split at h
    · rcases List.mem_cons.1 h with rfl | h
      · exact List.sublist_append_left _ _
      · exact ((ih h).trans (List.sublist_cons_self t ts)).trans (List.sublist_append_right _ _)
    · have := ih h
      rwa [List.append_assoc, List.singleton_append] at this

lemma argument_of_registration (h : Statement.registration? source call = some r) :
    ∃ argument, argument.Sublist call ∧ Statement.argumentFunction? source argument = some r.function := by
  simp only [Statement.registration?] at h
  split at h
  · split at h
    · next tag function hsplit =>
      split at h
      · obtain ⟨f, hf, rfl⟩ := Option.map_eq_some_iff.1 h
        have hsublist := @mem_splitArguments function _ _ _ (by rw [hsplit]; simp)
        exact ⟨function, (((hsublist.trans (List.dropLast_sublist _)).trans (List.drop_sublist _ _)).trans (List.drop_sublist _ _)), hf⟩
      · cases h
    · cases h
  · cases h

lemma call_of_assigned (h : statement.assigned? source = some p) :
    ∃ call, call.Sublist statement ∧ Statement.registration? source call = some p.2 := by
  match statement, h with
  | t :: u :: us, h =>
    simp only [Statement.assigned?] at h
    split at h
    · obtain ⟨r, hr, rfl⟩ := Option.map_eq_some_iff.1 h
      exact ⟨us, (List.sublist_cons_self u us).trans (List.sublist_cons_self t _), hr⟩
    · cases h

lemma call_of_plain (h : statement.plain? source = some r) :
    ∃ call, call.Sublist statement ∧ Statement.registration? source call = some r := by
  simp only [Statement.plain?] at h
  split at h
  · next t u us =>
    split at h
    · exact ⟨us, (List.sublist_cons_self u us).trans (List.sublist_cons_self t _), h⟩
    · exact ⟨_, List.Sublist.refl _, h⟩
  · exact ⟨_, List.Sublist.refl _, h⟩

lemma call_of_guarded (h : statement.guarded? source = some r) :
    ∃ call, call.Sublist statement ∧ Statement.registration? source call = some r := by
  match statement, h with
  | t :: ts, h =>
    simp only [Statement.guarded?] at h
    split at h
    · split at h
      · next head check hheader =>
        obtain ⟨semi, rfl⟩ := append_of_splitHeader? hheader
        split at h
        · next hassigned =>
          split at h
          · cases h
            obtain ⟨call, hsublist, hcall⟩ := call_of_assigned hassigned
            exact ⟨call, (hsublist.trans (List.sublist_append_left _ _)).cons t, hcall⟩
          · cases h
        · cases h
      · cases h
    · cases h

lemma call_of_single (h : statement.single? source = some r) :
    ∃ call, call.Sublist statement ∧ Statement.registration? source call = some r := by
  cases hplain : statement.plain? source with
  | some r' =>
    rw [Statement.single?, hplain] at h
    cases h
    exact call_of_plain hplain
  | none =>
    rw [Statement.single?, hplain] at h
    exact call_of_guarded h

/-- A registration is a call in the body. -/
lemma Sorts.exists_call (h : Sorts source ss ms left) (hm : m ∈ ms) :
    ∃ call, call.Sublist ss.flatten ∧ Statement.registration? source call = some m.registration := by
  induction h with
  | nil => cases hm
  | single hs _ ih =>
    rcases List.mem_cons.1 hm with rfl | hm
    · obtain ⟨call, hsublist, hcall⟩ := call_of_single hs
      exact ⟨call, hsublist.trans (List.sublist_append_left _ _), hcall⟩
    · obtain ⟨call, hsublist, hcall⟩ := ih hm
      exact ⟨call, hsublist.trans (List.sublist_append_right _ _), hcall⟩
  | pair _ hpair _ ih =>
    rcases List.mem_cons.1 hm with rfl | hm
    · obtain ⟨call, hsublist, hcall⟩ := call_of_assigned hpair.1
      exact ⟨call, hsublist.trans (List.sublist_append_left _ _), hcall⟩
    · obtain ⟨call, hsublist, hcall⟩ := ih hm
      exact ⟨call, (hsublist.trans (List.sublist_append_right _ _)).trans (List.sublist_append_right _ _), hcall⟩
  | left _ _ _ ih =>
    obtain ⟨call, hsublist, hcall⟩ := ih hm
    exact ⟨call, hsublist.trans (List.sublist_append_right _ _), hcall⟩

/-- The text from a keyword to a closing brace behind it. -/
lemma exists_literal_between {first last : Token} {ts : List Token} (hw : isWhole s)
    (h : (first :: (ts ++ [last])).Sublist (tokens s)) (hfunc : first.kind = .funcWord) (hbrace : last.kind = .rbrace) :
    ∃ M, IsLiteral (Text.slice s first.start last.stop) M := by
  obtain ⟨front, behind, hsplit, hfirst, hrest⟩ := List.cons_sublist_iff.1 h
  obtain ⟨A, A', rfl⟩ := List.append_of_mem hfirst
  obtain ⟨B, C, rfl⟩ := List.append_of_mem (hrest.subset (List.mem_append_right ts List.mem_cons_self))
  have htokens : tokens s = A ++ first :: ((A' ++ B) ++ last :: C) := by
    rw [hsplit]
    simp
  have htokens' : tokens s = (A ++ first :: (A' ++ B)) ++ last :: C := by
    rw [htokens]
    simp
  obtain ⟨front, middle, behind, hfront, hmiddle, hbehind⟩ : ∃ front middle behind : List Lexeme, front = A.map Token.lexeme ∧
      middle = (A' ++ B).map Token.lexeme ∧ behind = C.map Token.lexeme := ⟨_, _, _, rfl, rfl, rfl⟩
  have hlex : lex s = front ++ ((first.lexeme :: (middle ++ [last.lexeme])) ++ behind) := by
    rw [← map_lexeme_tokens, htokens, hfront, hmiddle, hbehind]
    simp
  have hlexed := isLexed_lex hw
  rw [hlex] at hlexed
  have hrun : IsLexed (first.lexeme :: (middle ++ [last.lexeme])) := hlexed.right.left
  have htext : first.lexeme = ⟨.funcWord, "func"⟩ := by
    rw [Token.lexeme, hfunc, show first.text = "func" from (funcWord_of_lex hrun.1 hfunc).1]
  have htext' : last.lexeme = ⟨.rbrace, ['\x7d']⟩ := by
    rw [Token.lexeme, hbrace, show last.text = ['\x7d'] from text_of_bracket (l := last.lexeme) (s := s) (by rw [hlex]; simp) (by
      show last.kind.bracket? = _
      rw [hbrace]
      rfl)]
  have hs : s = joined front ++ (joined (first.lexeme :: (middle ++ [last.lexeme])) ++ joined behind) := by
    rw [← joined_append, ← joined_append, ← hlex, joined_lex]
  have hstart : first.start = (joined front).width := by rw [start_of_tokens_eq htokens, hfront]
  have hstop : last.stop = (joined front).width + (joined (first.lexeme :: (middle ++ [last.lexeme]))).width := by
    rw [stop_of_tokens_eq htokens', hfront, hmiddle, ← Text.width_append, ← joined_append]
    simp
  rw [htext, htext'] at hrun
  refine ⟨_, hrun, List.getLast?_concat, ?_⟩
  conv_lhs => rw [hs]
  rw [hstart, hstop, Text.slice_width_append, htext, htext']

/-- A function literal is a run of lexemes from its keyword to its closing brace. -/
lemma exists_literal {literal : Text} (hw : isWhole s) (harg : argument.Sublist (tokens s))
    (h : Statement.argumentFunction? s argument = some (.literal literal)) :
    ∃ M, IsLiteral literal M := by
  simp only [Statement.argumentFunction?] at h
  split at h
  · next first last hfirst hlast =>
    split at h
    · next hfunc =>
      split at h
      · next hbrace =>
        obtain rfl : Text.slice s first.start last.stop = literal := by simpa using h
        -- the keyword is not the brace
        obtain ⟨ts, rfl⟩ : ∃ ts, argument = first :: (ts ++ [last]) := by
          obtain ⟨us, rfl⟩ : ∃ us, argument = first :: us := ⟨argument.tail, List.eq_cons_of_mem_head? hfirst⟩
          rcases List.eq_nil_or_concat' us with rfl | ⟨us, u, rfl⟩
          · obtain rfl : first = last := Option.some.inj hlast
            rw [hfunc] at hbrace
            cases hbrace
          · rw [← List.cons_append, List.getLast?_concat] at hlast
            obtain rfl : u = last := Option.some.inj hlast
            exact ⟨us, rfl⟩
        exact exists_literal_between hw harg hfunc hbrace
      · cases h
    · split at h <;> cases h
  · cases h

end Calls

/-! ### What is kept -/

section Kept

variable {name literal : Text} {tree : Tree} {d : Decl} {f : Function} {r : InitRemainder} {reg : InitRegistration}

/-- Whether lines can change in a text: it has a carriage return in front of a line break, or a tab behind one. -/
def hasLooseLine (s : Text) : Bool := Text.hasPart "\r\n" s || Text.hasPart "\n\t" s

lemma hasPart_pair {a b : Char} : Text.hasPart [a, b] (c :: u) = (decide (c = a ∧ u.head? = some b) || Text.hasPart [a, b] u) := by
  rw [Text.hasPart]
  congr 1
  cases u with
  | nil => simp [List.isPrefixOf]
  | cons d u => simp [List.isPrefixOf, Bool.decide_and, Bool.beq_eq_decide_eq, eq_comm]

lemma hasLooseLine_cons : hasLooseLine (c :: u) =
    (decide (c = '\r' ∧ u.head? = some '\n' ∨ c = '\n' ∧ u.head? = some '\t') || hasLooseLine u) := by
  have hreturn : "\r\n".toList = ['\r', '\n'] := rfl
  have htab : "\n\t".toList = ['\n', '\t'] := rfl
  simp only [hasLooseLine, hreturn, htab, hasPart_pair, Bool.decide_or]
  ac_rfl

lemma relined_eq_iff : relined fresh u = u ↔ hasLooseLine u = false ∧ ¬ (fresh ∧ u.head? = some '\t') := by
  induction u generalizing fresh with
  | nil => simp [relined, hasLooseLine, Text.hasPart]
  | cons c u ih =>
    rw [relined, hasLooseLine_cons]
    split
    · next hc =>
      refine iff_of_false (fun heq => ?_) ?_
      · have : (relined false u).length ≤ u.length := relined_sublist.length_le
        rw [heq, List.length_cons] at this
        omega
      · rintro ⟨hloose, htab⟩
        rcases hc with hc | ⟨hfresh, rfl⟩
        · simp [hc] at hloose
        · exact htab ⟨hfresh, rfl⟩
    · next hc =>
      rw [List.cons_inj_right, ih]
      simp only [not_or, not_and] at hc
      simp only [Bool.or_eq_false_iff, decide_eq_false_iff_not, not_or, not_and, List.head?_cons, Option.some.injEq, decide_eq_true_eq]
      constructor
      · rintro ⟨hloose, htab⟩
        exact ⟨⟨⟨hc.1, htab⟩, hloose⟩, hc.2⟩
      · rintro ⟨⟨⟨-, htab⟩, hloose⟩, -⟩
        exact ⟨hloose, htab⟩

lemma Source.Lexeme.relined_eq_iff : l.relined = l ↔ (l.kind = .rawString → hasLooseLine l.text = false) := by
  obtain ⟨k, t⟩ := l
  rw [Lexeme.relined]
  split
  · next hk =>
    obtain rfl : k = .rawString := hk
    simp [RuleWeaver.relined_eq_iff]
  · next hk => simp [hk]

variable {M : List Lexeme}

/-- The code of the function that is made of a literal. -/
lemma IsLiteral.code_function (h : IsLiteral literal M) (hname : IsName name) :
    codeLexemes (functionOfLiteral name literal) =
      ⟨.funcWord, "func"⟩ :: ⟨.ident, name⟩ :: (M.filter (·.kind.isSignificant)).map Lexeme.relined := by
  have hends : endsInLine (joined M) := by
    obtain ⟨M, rfl⟩ := List.getLast?_eq_some_iff.1 h.last
    exact ⟨'\x7d', by simp, by decide, by decide⟩
  have hlexed : IsLexed (⟨.funcWord, "func"⟩ :: M ++ [lineBreak]) := h.isLexed.append_lineBreak ⟨lex_nil, by simp⟩
  obtain ⟨z, hz⟩ : ∃ z, z = relined false (joined (M ++ [lineBreak])) := ⟨_, rfl⟩
  have hcode : (lex z).filter (·.kind.isSignificant) = (M.filter (·.kind.isSignificant)).map Lexeme.relined := by
    have := code_relined (IsLexed.right (A := [⟨.funcWord, "func"⟩]) hlexed) false
    rw [hz]
    simpa [codeLexemes, lineBreak, Kind.isSignificant] using this
  -- no name stands directly behind the keyword
  have hsep : Lexeme.separates ⟨.ident, name⟩ z := by
    rw [hz]
    exact separates_relined (l := ⟨.ident, name⟩) (separates_of_isLexed (l := ⟨.funcWord, "func"⟩) hlexed)
  have hfunc : IsLexed [⟨.funcWord, "func"⟩] := IsLexed.left (B := M) h.isLexed
  have hword : IsLexed [⟨.ident, name⟩] := ⟨by simpa using show lex name = _ from hname, by simp [Lexeme.isSound]⟩
  have hblank : (name ++ z).head?.all (!isBlank ·) := by
    obtain ⟨c, u, y, hs, hm, -, -⟩ := lex_cons_inv hname
    have hc : isBlank c = false := by
      rw [Bool.eq_false_iff]
      intro hc
      rw [show munch c (u ++ y) = (.blank, Text.run isBlank (u ++ y)) by simp [munch, hc]] at hm
      cases hm
    rw [hs]
    simpa using hc
  have htext : functionOfLiteral name literal = "func".toList ++ ([' '] ++ (name ++ z)) := by
    rw [h.text_eq, joined_cons, functionOfLiteral_eq hends, hz]
    simp [lineBreak]
  have hlex : lex (functionOfLiteral name literal) = ⟨.funcWord, "func"⟩ :: ⟨.blank, [' ']⟩ :: ⟨.ident, name⟩ :: lex z := by
    rw [htext]
    refine (lex_append_of_separates hfunc rfl).trans (congrArg _ ?_)
    rw [lex_blanks_append (by simp) (by rfl) hblank]
    exact congrArg _ (lex_append_of_separates hword hsep)
  rw [codeLexemes, hlex, List.filter_cons_of_pos (by rfl), List.filter_cons_of_neg (by simp [Kind.isSignificant]),
    List.filter_cons_of_pos (by rfl), hcode]

/-- **The function of a literal keeps its code exactly when** no raw string of the literal has a carriage return in front of a
line break or a tab behind one. -/
theorem lifted_literal_keeps_code_iff (h : parse s = .ok tree) (hd : d ∈ tree.decls) (hf : d.kind = .function f)
    (hextract : extractRegistrations? s d f = some r) (hreg : reg ∈ r.registrations) (hliteral : reg.function = .literal literal)
    (hname : IsName name) :
    codeLexemes (functionOfLiteral name literal) = ⟨.funcWord, "func"⟩ :: ⟨.ident, name⟩ :: (codeLexemes literal).tail ↔
      ∀ l ∈ lex literal, l.kind = .rawString → hasLooseLine l.text = false := by
  obtain ⟨b, hb⟩ : ∃ b, f.body = some b := by
    cases hb : f.body with
    | none => simp [extractRegistrations?, hb] at hextract
    | some b => exact ⟨b, rfl⟩
  obtain ⟨ms, left, hsorts, hremainder⟩ := extractRegistrations?_eq h hd hf hb
  obtain rfl : remainder s d ms left = r := Option.some.inj (hremainder.symm.trans hextract)
  obtain ⟨m, hm, rfl⟩ := List.mem_map.1 hreg
  -- the literal is a run of tokens of the body
  obtain ⟨call, hcall, hregistration⟩ := hsorts.exists_call hm
  obtain ⟨argument, hargument, hfunction⟩ := argument_of_registration hregistration
  have hsublist : argument.Sublist (tokens s) := hargument.trans (hcall.trans (laid_splitBody.sublist.trans List.filter_sublist))
  obtain ⟨M, hM⟩ := exists_literal (parse_eq_ok h).1 hsublist (hfunction.trans (congrArg some hliteral))
  have hlex : lex literal = ⟨.funcWord, "func"⟩ :: M := by rw [hM.text_eq, hM.isLexed.1]
  rw [hM.code_function hname, codeLexemes, hlex, List.filter_cons_of_pos (by rfl), List.tail_cons, List.cons_inj_right, List.cons_inj_right]
  have hraw : ∀ l : Lexeme, l.kind = .rawString → l.kind.isSignificant := fun l hl => by
    rw [hl]
    rfl
  calc _ ↔ ∀ l ∈ M.filter (·.kind.isSignificant), l.relined = l := by
        conv_lhs => rhs; rw [← List.map_id (M.filter _)]
        exact List.map_inj_left
    _ ↔ ∀ l ∈ M, l.kind = .rawString → hasLooseLine l.text = false := by
        simp only [List.mem_filter, Lexeme.relined_eq_iff, and_imp]
        exact ⟨fun hall l hl hk => hall l hl (hraw l hk) hk, fun hall l hl _ => hall l hl⟩
    _ ↔ _ := by simp

/-- A function literal with a raw string over two lines. -/
def rawLiteral : Text := "func() bool \x7b\n\t\treturn is(\x60a\n\tb\x60)\n\t\x7d"

def rawLiteralFile : Text := ("package a\n\nfunc init() \x7b\n\tv.RegisterValidation(\"zip\", " : Text) ++ (rawLiteral ++ ")\n\x7d\n")

def rawLiteralFunction : Function := ⟨"init", none, some ⟨23, 93⟩⟩

def rawLiteralDecl : Decl := ⟨.function rawLiteralFunction, ⟨11, 93⟩, 11⟩

/-- The raw string loses its tab. -/
theorem rawLiteral_loses_tab : ∃ r, extractRegistrations? rawLiteralFile rawLiteralDecl rawLiteralFunction = some r ∧
    r.registrations = [⟨"zip", .literal rawLiteral⟩] ∧ codeLexemes (functionOfLiteral "validateZip" rawLiteral) ≠
      ⟨.funcWord, "func"⟩ :: ⟨.ident, "validateZip"⟩ :: (codeLexemes rawLiteral).tail := by
  have hparse : parse rawLiteralFile = .ok ⟨⟨"a", ⟨0, 9⟩⟩, [], [rawLiteralDecl]⟩ := by
    apply ok_of_toOption
    unfold rawLiteralFile rawLiteral
    repeat rw [String.toList_ofList]
    decide +kernel
  have hextract : extractRegistrations? rawLiteralFile rawLiteralDecl rawLiteralFunction =
      some ⟨none, [⟨"zip", .literal rawLiteral⟩]⟩ := by
    unfold rawLiteralFile rawLiteral
    repeat rw [String.toList_ofList]
    decide +kernel
  refine ⟨_, hextract, rfl, fun hkept => ?_⟩
  have hname : IsName "validateZip" := by
    unfold IsName
    rw [String.toList_ofList]
    decide +kernel
  have hloose := (lifted_literal_keeps_code_iff (d := rawLiteralDecl) hparse (by decide) rfl hextract List.mem_cons_self rfl hname).1 hkept
    ⟨.rawString, "\x60a\n\tb\x60"⟩ (by
      unfold rawLiteral
      repeat rw [String.toList_ofList]
      decide +kernel) rfl
  exact absurd hloose (by decide)

end Kept

end RuleWeaver
