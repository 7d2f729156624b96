import RuleWeaver.Proofs.Source.Files
import RuleWeaver.Proofs.Source.Gaps

/-!
# Comments that are put into a text

A block comment between two lexemes is one more lexeme, unless the characters in front of it are operators, which take in the
slash that it begins with.  Behind them the comment is lost in an operator, and the text has no tree; behind a single slash it
begins a comment up to the end of the line; behind a line comment it belongs to that comment (`comment_is_transparent_iff`).
-/

namespace RuleWeaver.Source

open Text (run run_le_length)

variable {s s' a b u y z : Text} {c : Char} {q l : Lexeme} {A B M M' : List Lexeme} {t : Token} {tree : Tree} {k : Kind} {e : Bool}
  {stack : List Kind}

/-- A block comment. -/
def smallComment : Text := "/*c*/"

/-- Whether a text has a tree, but for the offsets. -/
def HasTree (s : Text) (tree : Tree) : Prop := ∃ u, parse s = .ok u ∧ u.unplaced = tree.unplaced

/-! ### Comments that do not matter -/

/-- Whether a lexeme is a comment on one line. -/
def Lexeme.IsQuiet (l : Lexeme) : Prop := l.kind.isComment ∧ '\n' ∉ l.text

lemma Lexeme.IsQuiet.isSound (h : l.IsQuiet) : l.isSound := by
  obtain ⟨k, w⟩ := l
  obtain ⟨h, -⟩ := h
  cases k <;> first | rfl | cases h

lemma Lexeme.IsQuiet.unbracketed (h : l.IsQuiet) : l.kind.isOpen = false ∧ l.kind.isClose = false := by
  obtain ⟨h, -⟩ := h
  revert h
  cases l.kind <;> simp [Kind.isComment, Kind.isOpen, Kind.isClose]

lemma Lexeme.IsQuiet.not_breaksLine (h : l.IsQuiet) : l.breaksLine = false := by
  obtain ⟨h, h'⟩ := h
  have : l.kind ≠ .newline := by
    intro e
    rw [e] at h
    cases h
  simp [Lexeme.breaksLine, h', this]

lemma statementLexemes_quiet (h : ∀ m ∈ M, m.IsQuiet) : statementLexemes e (M ++ B) = statementLexemes e B := by
  induction M with
  | nil => rfl
  | cons m M ih =>
    have hm := h m List.mem_cons_self
    have hskip : m.kind = .blank ∨ m.kind.isComment := .inr hm.1
    rw [← ih fun l hl => h l (List.mem_cons_of_mem _ hl), List.cons_append, statementLexemes, statementPart, endingBehind,
      hm.not_breaksLine, if_neg Bool.false_ne_true, if_pos hskip, if_neg Bool.false_ne_true, if_pos hskip]
    rfl

/-- Texts with the same lexemes but for comments on one line have the same trees. -/
lemma HasTree.of_quiet (hM : ∀ m ∈ M, m.IsQuiet) (hM' : ∀ m ∈ M', m.IsQuiet) (h : lex s = A ++ (M ++ B))
    (h' : lex s' = A ++ (M' ++ B)) (ht : HasTree s tree) : HasTree s' tree := by
  obtain ⟨u, hu, hunplaced⟩ := ht
  obtain ⟨hw, hb, -⟩ := file_of_parse hu
  have hwhole : isWhole s' := by
    rw [isWhole_iff, h] at hw
    rw [isWhole_iff, h']
    intro l hl
    rcases List.mem_append.1 hl with hl | hl
    · exact hw l (List.mem_append_left _ hl)
    rcases List.mem_append.1 hl with hl | hl
    · exact (hM' l hl).isSound
    · exact hw l (List.mem_append_right _ (List.mem_append_right _ hl))
  have hbalanced : isBalanced [] (lex s') := by
    have key : ∀ M : List Lexeme, (∀ m ∈ M, m.IsQuiet) → isBalanced [] (A ++ (M ++ B)) = isBalanced [] (A ++ B) := fun M hM =>
      isBalanced_congr fun _ => isBalanced_append (isBalanced_of_unbracketed fun l hl => (hM l hl).unbracketed)
    rwa [h', key M' hM', ← key M hM, ← h]
  have hcode : (statementTokens s).map Token.lexeme = (statementTokens s').map Token.lexeme := by
    rw [map_lexeme_statementTokens, map_lexeme_statementTokens, h, h', @statementLexemes_append _ A, @statementLexemes_append _ A,
      statementLexemes_quiet hM, statementLexemes_quiet hM']
  obtain ⟨u', hu', hlike⟩ := exists_parse_of_alike (P := Eq) hu hwhole hbalanced (.of_sameCode (.of_lexemes hcode))
  exact ⟨u', hu', hlike.unplaced_eq.symm.trans hunplaced⟩

/-! ### Places between lexemes -/

/-- A text is split at the beginning and at the end of each of its tokens. -/
lemma lex_of_token (hw : isWhole (a ++ b)) (ht : t ∈ tokens (a ++ b)) (hplace : a.width = t.start ∨ a.width = t.stop) :
    lex (a ++ b) = lex a ++ lex b := by
  obtain ⟨xs, ys, hlex, hstart⟩ := mem_tokens.1 ht
  have cut : ∀ L R, lex (a ++ b) = L ++ R → a.width = (joined L).width → lex (a ++ b) = lex a ++ lex b := by
    intro L R h hwidth
    obtain ⟨rfl, rfl⟩ := Text.append_inj_of_width ((joined_lex (s := a ++ b)).symm.trans (by rw [h, joined_append])) hwidth
    rw [h, lex_joined_left h fun l hl => isWhole_iff.1 hw l (by rw [h]; exact List.mem_append_left _ hl), lex_joined_right h]
  rcases hplace with h | h
  · exact cut xs (t.lexeme :: ys) hlex (h.trans hstart)
  · refine cut (xs ++ [t.lexeme]) ys (by simpa using hlex) (h.trans ?_)
    rw [Token.stop, hstart]
    simp

/-- What the last lexeme of the first part is followed by in the whole text. -/
lemma separates_of_lex_eq (hw : isWhole (a ++ b)) (h : lex (a ++ b) = lex a ++ lex b) (hq : (lex a).getLast? = some q) :
    q.isSound ∧ q.separates b := by
  obtain ⟨A, hA⟩ := List.getLast?_eq_some_iff.1 hq
  have hq' : q ∈ lex (a ++ b) := by
    rw [h, hA]
    simp
  have hs := isWhole_iff.1 hw q hq'
  rw [hA, List.append_assoc, List.singleton_append] at h
  obtain ⟨c, u, y, -, hm, ht, hy⟩ := lex_cons_inv (lex_joined_right h)
  obtain ⟨k, w⟩ := q
  obtain rfl : w = c :: u := ht
  refine ⟨hs, ?_⟩
  rw [show b = y by rw [← joined_lex (s := b), ← hy, joined_lex]]
  exact ((munch_append_iff hs).1 hm).2

lemma isWhole_left (hw : isWhole (a ++ b)) (h : lex (a ++ b) = lex a ++ lex b) : isWhole a := by
  rw [isWhole_iff, h] at hw
  exact isWhole_iff.2 fun l hl => hw l (List.mem_append_left _ hl)

/-! ### Behind a character that is no operator -/

lemma lex_smallComment : lex (smallComment ++ b) = ⟨.blockComment, smallComment⟩ :: lex b := by
  have h : lex smallComment = [⟨.blockComment, smallComment⟩] := by
    unfold smallComment
    repeat rw [String.toList_ofList]
    decide +kernel
  rw [lex_append_of_eq h (by decide) (by simp [Lexeme.precedes, Lexeme.separates, smallComment, isOperatorChar])]
  rfl

/-- The lexemes of which every character is an operator. -/
lemma operator_of_all (hs : q.isSound) (hq : q ∈ lex s)
    (h : q.kind = .star ∨ q.kind = .assign ∨ q.kind = .incDec ∨ q.kind = .operator) : q.text.any (!isOperatorChar ·) = false := by
  obtain ⟨c, u, htext, hmunch⟩ := exists_munch_of_mem hq hs
  obtain ⟨hc, hu⟩ := (wholeForm hmunch (kind_ne_stray hs)).of_operator h
  rw [htext, List.any_eq_false]
  intro d hd
  rcases List.mem_cons.1 hd with rfl | hd
  · simpa using hc
  · simpa using List.all_eq_true.1 hu d hd

lemma precedes_smallComment (hs : q.isSound) (hq : q ∈ lex s) (hk : q.kind ≠ .lineComment)
    (hc : q.text.any (!isOperatorChar ·)) : q.precedes (smallComment ++ b) := by
  have hdot : (smallComment ++ b).head? = some '/' := rfl
  have hno : ¬ (q.kind = .star ∨ q.kind = .assign ∨ q.kind = .incDec ∨ q.kind = .operator) := by
    intro h
    rw [operator_of_all hs hq h] at hc
    cases hc
  obtain ⟨k, w⟩ := q
  rw [Lexeme.precedes, hdot]
  cases k <;> simp_all [Lexeme.separates, smallComment, isBlank, isNameChar, isNameStart, isNumberChar, List.isPrefixOf]

/-! ### Behind operators -/

lemma munch_of_isOperatorChar (h : isOperatorChar c) (hc : c ≠ '/') : munch c y = munchOperator c y := by
  unfold isOperatorChar at h
  split at h <;> first | rfl | exact absurd rfl hc | cases h

lemma munchOperator_of_two_le (h : 2 ≤ run isOperatorChar y) : munchOperator c y = (.operator, run isOperatorChar y) := by
  have hlength : 2 ≤ (y.take (run isOperatorChar y)).length := by
    rw [List.length_take, Nat.min_eq_left run_le_length]
    exact h
  unfold munchOperator
  dsimp only
  split <;> first | rfl | simp_all

/-- A slash and an operator are an operator, also where a comment that ends inside them would begin. -/
lemma munchSlash_of_lt (hslash : c ≠ '/') (hstar : c = '*' → ∀ n, commentEnd? y = some n → n + 1 < run isOperatorChar (c :: y)) :
    munchSlash (c :: y) = (.operator, run isOperatorChar (c :: y)) := by
  by_cases hc : c = '*'
  · subst hc
    simp only [munchSlash]
    split
    · next n hn => rw [if_pos (hstar rfl n hn)]
    · rfl
  · exact munchSlash_other hslash hc

/-- Operators take in what a comment behind them begins with. -/
lemma munch_behind_operator (hs : Lexeme.isSound ⟨k, c :: u⟩) (hm : munch c u = (k, u.length)) (hk : k ≠ .lineComment)
    (hall : (c :: u).all isOperatorChar) (hne : c :: u ≠ ['/']) :
    munch c (u ++ ['/', '*'] ++ 'c' :: z) = (.operator, (u ++ ['/', '*']).length) := by
  rw [List.all_cons, Bool.and_eq_true] at hall
  have hrun : run isOperatorChar (u ++ ['/', '*'] ++ 'c' :: z) = (u ++ ['/', '*']).length := by
    refine Text.run_append_eq_length_iff.2 ⟨?_, rfl⟩
    rw [List.all_append, hall.2]
    rfl
  by_cases hc : c = '/'
  · subst hc
    rcases u with _ | ⟨d, u⟩
    · exact absurd rfl hne
    have hslash : d ≠ '/' := by
      rintro rfl
      exact hk (congrArg Prod.fst hm).symm
    have hstar : d = '*' → commentEnd? u = some u.length := by
      rintro rfl
      rcases munchSlash_star_fst (y := u) with h | h
      · obtain rfl : k = .operator := by rw [← h]; exact (congrArg Prod.fst hm).symm
        simp [Lexeme.isSound, Text.hasPart] at hs
      · obtain rfl : k = .blockComment := by rw [← h]; exact (congrArg Prod.fst hm).symm
        exact (munchSlash_star_eq.1 hm).1
    rw [← hrun, List.cons_append, List.cons_append]
    refine munchSlash_of_lt hslash fun hd n hn => ?_
    rw [List.append_assoc, (commentEnd?_append (Nat.le_refl _)).2 (hstar hd), Option.some.injEq] at hn
    rw [← List.cons_append, ← List.cons_append, hrun, ← hn]
    simp
  · rw [munch_of_isOperatorChar hall.1 hc, munchOperator_of_two_le (by rw [hrun]; simp), hrun]

lemma hasPart_append : Text.hasPart b (a ++ b) := by
  induction a with
  | nil =>
    rcases b with _ | ⟨c, b⟩
    · rfl
    · rw [List.nil_append, Text.hasPart, Bool.or_eq_true]
      exact .inl (List.isPrefixOf_iff_prefix.2 List.prefix_rfl)
  | cons c a ih => rw [List.cons_append, Text.hasPart, ih, Bool.or_true]

/-- Behind operators a comment is lost. -/
lemma not_isWhole_behind_operator (ha : isWhole a) (hq : (lex a).getLast? = some q) (hk : q.kind ≠ .lineComment)
    (hall : q.text.all isOperatorChar) (hne : q.text ≠ ['/']) : isWhole (a ++ (smallComment ++ b)) = false := by
  obtain ⟨A, hA⟩ := List.getLast?_eq_some_iff.1 hq
  have hs : q.isSound := isWhole_iff.1 ha q (by rw [hA]; simp)
  obtain ⟨c, u, htext, hm⟩ := exists_munch_of_mem (by rw [hA]; simp) hs
  obtain ⟨k, w⟩ := q
  obtain rfl : w = c :: u := htext
  have hdot : c ≠ '.' := by
    rintro rfl
    cases hall
  have hmunch := munch_behind_operator (z := '*' :: '/' :: b) hs hm hk hall hne
  have htext : a ++ (smallComment ++ b) = joined A ++ c :: (u ++ ['/', '*'] ++ 'c' :: '*' :: '/' :: b) := by
    conv_lhs => rw [← joined_lex (s := a), hA]
    simp [smallComment]
  have hlex : lex (a ++ (smallComment ++ b)) =
      A ++ ⟨.operator, c :: (u ++ ['/', '*'])⟩ :: lex ('c' :: '*' :: '/' :: b) := by
    have hsound : ∀ l ∈ A, l.isSound := fun l hl => isWhole_iff.1 ha l (hA ▸ List.mem_append_left _ hl)
    rw [htext, lex_joined_append (y := u) hdot hA (by simp) hsound, lex_cons hmunch]
  rw [isWhole, hlex, List.all_append, List.all_cons]
  have hpart : Text.hasPart ['/', '*'] (c :: (u ++ ['/', '*'])) := hasPart_append (a := c :: u)
  have : Lexeme.isSound ⟨.operator, c :: (u ++ ['/', '*'])⟩ = false := by
    simp [Lexeme.isSound, hpart]
  rw [this, Bool.false_and, Bool.and_false]

/-! ### In front of the rest of a line -/

lemma IsLexed.lex_append_line (h : IsLexed A) (hy : y.head?.all (· = '\n')) : lex (joined A ++ y) = A ++ lex y := by
  rcases y with _ | ⟨c, y⟩
  · rw [List.append_nil, h.1, lex_nil, List.append_nil]
  · obtain rfl : c = '\n' := by simpa using hy
    rw [h.lex_append_newline, lex_newline]

lemma isQuiet_lineComment (h : '\n' ∉ u) : Lexeme.IsQuiet ⟨.lineComment, '/' :: '/' :: u⟩ := ⟨rfl, by simpa using h⟩

/-- Behind a line comment the text belongs to that comment. -/
lemma HasTree.behind_lineComment (ha : isWhole a) (hab : lex (a ++ b) = lex a ++ lex b) (hq : (lex a).getLast? = some q)
    (hk : q.kind = .lineComment) (hb : b.head?.all (· = '\n')) (ht : HasTree (a ++ b) tree) :
    HasTree (a ++ (smallComment ++ b)) tree := by
  obtain ⟨A, hA⟩ := List.getLast?_eq_some_iff.1 hq
  obtain ⟨v, hv, hline⟩ := exists_lineComment (s := a) (by rw [hA]; simp) hk
  obtain ⟨k, w⟩ := q
  obtain rfl : k = .lineComment := hk
  obtain rfl : w = '/' :: '/' :: v := hv
  have hline' : '\n' ∉ v ++ smallComment := by
    rw [List.mem_append, not_or]
    exact ⟨hline, by decide⟩
  have htext : a ++ (smallComment ++ b) = joined A ++ '/' :: '/' :: (v ++ smallComment ++ b) := by
    conv_lhs => rw [← joined_lex (s := a), hA]
    simp
  have hlex : lex (a ++ (smallComment ++ b)) = A ++ ([⟨.lineComment, '/' :: '/' :: (v ++ smallComment)⟩] ++ lex b) := by
    rw [htext, lex_joined_append (y := '/' :: v) (by decide) hA (by simp)
      fun l hl => isWhole_iff.1 ha l (by rw [hA]; exact List.mem_append_left _ hl), lex_lineComment_append hline' hb]
    rfl
  refine ht.of_quiet (M := [⟨.lineComment, '/' :: '/' :: v⟩]) (by simpa using isQuiet_lineComment hline)
    (by simpa using isQuiet_lineComment hline') ?_ hlex
  rw [hab, hA, List.append_assoc]

/-- Behind a single slash the text becomes a comment up to the end of the line, which the slash belongs to. -/
lemma hasTree_behind_slash_iff (ha : isWhole a) (hq : (lex a).getLast? = some q) (hslash : q.text = ['/']) :
    HasTree (a ++ (smallComment ++ b)) tree ↔ HasTree (a.dropLast ++ b.dropWhile (· ≠ '\n')) tree := by
  obtain ⟨A, hA⟩ := List.getLast?_eq_some_iff.1 hq
  obtain ⟨k, w⟩ := q
  obtain rfl : w = ['/'] := hslash
  have hsound : ∀ l ∈ A, l.isSound := fun l hl => isWhole_iff.1 ha l (by rw [hA]; exact List.mem_append_left _ hl)
  have hlexed : IsLexed A := ⟨lex_joined_left hA hsound, hsound⟩
  have ha' : a = joined A ++ ['/'] := by
    rw [← joined_lex (s := a), hA]
    simp
  generalize hr : b.dropWhile (· ≠ '\n') = r
  generalize hl : b.takeWhile (· ≠ '\n') = line
  have hb : b = line ++ r := by rw [← hl, ← hr, List.takeWhile_append_dropWhile]
  have hhead : r.head?.all (· = '\n') := by
    have := List.head?_dropWhile_not (fun c : Char => decide (c ≠ '\n')) b
    rw [hr] at this
    cases h : r.head? <;> simp_all
  have hline : '\n' ∉ '*' :: 'c' :: '*' :: '/' :: line := by
    have : '\n' ∉ line := by
      rw [← hl]
      intro hmem
      simpa using List.mem_takeWhile_imp hmem
    simpa using this
  have htext : a ++ (smallComment ++ b) = joined A ++ '/' :: '/' :: (('*' :: 'c' :: '*' :: '/' :: line) ++ r) := by
    rw [ha', hb]
    simp [smallComment]
  have hlex : lex (a ++ (smallComment ++ b)) =
      A ++ ([⟨.lineComment, '/' :: '/' :: '*' :: 'c' :: '*' :: '/' :: line⟩] ++ lex r) := by
    rw [htext, lex_joined_append (y := []) (by decide) hA (by simp) hsound, lex_lineComment_append hline hhead]
    rfl
  have hlex' : lex (a.dropLast ++ r) = A ++ ([] ++ lex r) := by
    rw [ha', List.dropLast_concat, hlexed.lex_append_line hhead]
    rfl
  have hquiet := isQuiet_lineComment hline
  exact ⟨.of_quiet (by simpa using hquiet) (by simp) hlex hlex', .of_quiet (by simp) (by simpa using hquiet) hlex' hlex⟩

/-! ### Where a comment does not matter -/

lemma isQuiet_smallComment : Lexeme.IsQuiet ⟨.blockComment, smallComment⟩ := ⟨rfl, by decide⟩

lemma HasTree.behind_other (ha : isWhole a) (hab : lex (a ++ b) = lex a ++ lex b)
    (hq : ∀ q ∈ (lex a).getLast?, q.precedes (smallComment ++ b)) (ht : HasTree (a ++ b) tree) :
    HasTree (a ++ (smallComment ++ b)) tree := by
  have hlex : lex (a ++ (smallComment ++ b)) = lex a ++ ([⟨.blockComment, smallComment⟩] ++ lex b) := by
    rw [lex_append ha hq, lex_smallComment]
    rfl
  exact ht.of_quiet (M := []) (by simp) (by simpa using isQuiet_smallComment) hab hlex

/-- **Where a comment does not matter.**  A small block comment at the beginning or the end of a token leaves the tree as it is, but
for offsets, exactly if what stands in front of it is a line comment, has a character that is no operator, or is a slash and the
text without it and the rest of its line has the same tree. -/
theorem comment_is_transparent_iff (h : parse (a ++ b) = .ok tree) (ht : t ∈ tokens (a ++ b))
    (hplace : a.width = t.start ∨ a.width = t.stop) :
    HasTree (a ++ (smallComment ++ b)) tree ↔ ∀ q ∈ (lex a).getLast?, q.kind = .lineComment ∨ q.text.any (!isOperatorChar ·) ∨
      (q.text = ['/'] ∧ HasTree (a.dropLast ++ b.dropWhile (· ≠ '\n')) tree) := by
  have hw := (file_of_parse h).1
  have hab := lex_of_token hw ht hplace
  have ha := isWhole_left hw hab
  have hself : HasTree (a ++ b) tree := ⟨tree, h, rfl⟩
  cases hq : (lex a).getLast? with
  | none =>
    refine iff_of_true (hself.behind_other ha hab fun q hq' => ?_) fun q hq' => ?_
    · rw [hq] at hq'
      cases hq'
    · cases hq'
  | some q =>
    obtain ⟨hs, hsep⟩ := separates_of_lex_eq hw hab hq
    have hmem : q ∈ lex a := List.mem_of_getLast? hq
    simp only [Option.mem_def, Option.some.injEq, forall_eq']
    by_cases hk : q.kind = .lineComment
    · refine iff_of_true (hself.behind_lineComment ha hab hq hk ?_) (.inl hk)
      rw [Lexeme.separates, hk] at hsep
      exact hsep
    by_cases hc : q.text.any (!isOperatorChar ·)
    · refine iff_of_true (hself.behind_other ha hab fun q' hq' => ?_) (.inr (.inl hc))
      obtain rfl : q = q' := Option.some.inj (hq.symm.trans hq')
      exact precedes_smallComment hs hmem hk hc
    by_cases hslash : q.text = ['/']
    · rw [hasTree_behind_slash_iff ha hq hslash]
      simp [hk, hslash, isOperatorChar]
    · have hall : q.text.all isOperatorChar := by simpa using hc
      refine iff_of_false ?_ (by simp [hk, hc, hslash])
      rintro ⟨u, hu, -⟩
      have := (file_of_parse hu).1
      rw [not_isWhole_behind_operator ha hq hk hall hslash] at this
      cases this

/-- A file up to an operator. -/
def sumHead : Text := "package a\n\nvar x = 1+"

def sumTree : Tree where
  package := ⟨"a", ⟨0, 9⟩⟩
  imports := []
  decls := [⟨.vars ["x"], ⟨11, 22⟩, 11⟩]

/-- A comment behind that operator takes the tree away. -/
theorem sum_without_comment : parse (sumHead ++ "2\n") = .ok sumTree ∧
    ¬ HasTree (sumHead ++ (smallComment ++ "2\n")) sumTree := by
  have h : parse (sumHead ++ "2\n") = .ok sumTree := by
    apply ok_of_toOption
    unfold sumHead
    repeat rw [String.toList_ofList]
    decide +kernel
  have ht : (⟨.operator, ['+'], 20⟩ : Token) ∈ tokens (sumHead ++ "2\n") := by
    unfold sumHead
    repeat rw [String.toList_ofList]
    decide +kernel
  have hlast : (lex sumHead).getLast? = some ⟨.operator, ['+']⟩ := by
    unfold sumHead
    repeat rw [String.toList_ofList]
    decide +kernel
  refine ⟨h, fun htree => ?_⟩
  have := (comment_is_transparent_iff h ht (.inr (by decide))).1 htree _ hlast
  simp [isOperatorChar] at this

end RuleWeaver.Source
