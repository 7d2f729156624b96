import RuleWeaver.Proofs.Source.Coverage

/-!
# What tokens cover

The tokens of a well-formed text leave out nothing but blanks, and their brackets nest.  The stack that brackets are checked with
is empty at the end exactly for the well-nested words of brackets (`isBalanced_iff_wellNested`), and a block comment ends where
the text behind its opening mark is cut at the first closing one (`commentEnd?_eq_some_iff`).
-/

namespace RuleWeaver.Source

open Text (IsBoundary)

variable {s v a b : Text} {c : Char} {t u : Token} {ts : List Token} {l : Lexeme} {ls : List Lexeme} {k k' : Kind}
  {ks xs ys stack : List Kind} {n : Nat}

/-! ### Words of brackets -/

def Kind.isBracket (k : Kind) : Bool := k.isOpen || k.isClose

/-- The classes of the brackets among lexemes. -/
def bracketKinds (ls : List Lexeme) : List Kind := (ls.map (·.kind)).filter Kind.isBracket

/-- Words of brackets in which every bracket has a partner: what a closing bracket closes was opened by one of its kind, with a
well-nested word in between. -/
inductive WellNested : List Kind → Prop
  | nil : WellNested []
  | group {o c : Kind} {xs ys : List Kind} (hc : o.closer? = some c) (hxs : WellNested xs) (hys : WellNested ys) :
      WellNested (o :: (xs ++ c :: ys))

/-- What closes open brackets, innermost first: well-nested words with the closing brackets in between. -/
def ClosesAll : List Kind → List Kind → Prop
  | [], ks => WellNested ks
  | o :: stack, ks => ∃ xs c ys, ks = xs ++ c :: ys ∧ o.closer? = some c ∧ WellNested xs ∧ ClosesAll stack ys

lemma ClosesAll.group (hk : k.closer? = some k') (hxs : WellNested xs) (h : ClosesAll stack ys) :
    ClosesAll stack (k :: (xs ++ k' :: ys)) := by
  cases stack with
  | nil => exact .group hk hxs h
  | cons o stack =>
    obtain ⟨zs, c, ws, rfl, hc, hzs, hws⟩ := h
    exact ⟨k :: (xs ++ k' :: zs), c, ws, by simp, hc, .group hk hxs hzs, hws⟩

@[simp] lemma bracketKinds_cons : bracketKinds (l :: ls) =
    if l.kind.isBracket then l.kind :: bracketKinds ls else bracketKinds ls := by
  simp [bracketKinds, List.filter_cons]

lemma closesAll_of_isBalanced (h : isBalanced stack ls) : ClosesAll stack (bracketKinds ls) := by
  induction ls generalizing stack with
  | nil =>
    obtain rfl : stack = [] := by simpa [isBalanced] using h
    exact .nil
  | cons l ls ih =>
    simp only [isBalanced] at h
    rw [bracketKinds_cons, Kind.isBracket]
    split at h
    · next ho =>
      obtain ⟨xs, c, ys, e, hc, hxs, hys⟩ := ih h
      rw [ho, Bool.true_or, if_pos rfl, e]
      exact .group hc hxs hys
    next ho =>
    split at h
    · next hc =>
      rw [hc, Bool.or_true, if_pos rfl]
      rcases stack with _ | ⟨o, stack⟩
      · cases h
      · rw [Bool.and_eq_true, decide_eq_true_eq] at h
        exact ⟨[], l.kind, _, rfl, h.1, .nil, ih h.2⟩
    · next hc =>
      rw [Bool.not_eq_true] at ho hc
      rw [ho, hc, Bool.or_false, if_neg Bool.false_ne_true]
      exact ih h

lemma isBalanced_of_wellNested (h : WellNested ks) (hls : ls.map (·.kind) = ks) : isBalanced [] ls := by
  induction h generalizing ls with
  | nil =>
    rw [List.map_eq_nil_iff.1 hls]
    rfl
  | @group o c xs ys hc _ _ ihx ihy =>
    obtain ⟨l, rest, rfl, rfl, hrest⟩ := List.map_eq_cons_iff.1 hls
    obtain ⟨as, bs, rfl, has, hbs⟩ := List.map_eq_append_iff.1 hrest
    obtain ⟨m, ms, rfl, rfl, hms⟩ := List.map_eq_cons_iff.1 hbs
    obtain ⟨hopen, hclose, hclose'⟩ := isOpen_of_closer? hc
    rw [isBalanced, if_pos hopen, isBalanced_append (ihx has), isBalanced, hclose', if_neg Bool.false_ne_true, if_pos hclose]
    simpa [hc] using ihy hms

/-- **Nesting.**  The check with a stack accepts exactly the well-nested words of brackets. -/
theorem isBalanced_iff_wellNested : isBalanced [] ls ↔ WellNested (bracketKinds ls) := by
  refine ⟨closesAll_of_isBalanced, fun h => ?_⟩
  rw [← isBalanced_filter (p := fun l => l.kind.isBracket) fun l hl => by simpa [Kind.isBracket] using hl]
  exact isBalanced_of_wellNested h (List.filter_map (f := fun l : Lexeme => l.kind) (p := Kind.isBracket)).symm

/-! ### Where a block comment ends -/

lemma strip?_closing : Text.strip? "*/" (c :: v) = if c = '*' ∧ v.head? = some '/' then some (v.drop 1) else none := by
  rcases v with _ | ⟨d, v⟩
  · by_cases hc : c = '*' <;> simp [Text.strip?, hc, eq_comm]
  · by_cases hc : c = '*' <;> by_cases hd : d = '/' <;> simp [Text.strip?, hc, hd, eq_comm]

/-- The end of a block comment is the first `*/` behind its opening mark. -/
lemma commentEnd?_eq_some_iff : commentEnd? v = some n ↔ ∃ body rest, Text.cut? "*/" v = some (body, rest) ∧ n = body.length + 2 := by
  induction v generalizing n with
  | nil => simp [commentEnd?, Text.cut?]
  | cons c v ih =>
    rw [commentEnd?_cons, Text.cut?, strip?_closing]
    split
    · simp [eq_comm]
    · simp only [Option.map_eq_some_iff]
      constructor
      · rintro ⟨m, hm, rfl⟩
        obtain ⟨body, rest, hcut, rfl⟩ := ih.1 hm
        exact ⟨c :: body, rest, ⟨(body, rest), hcut, rfl⟩, by simp⟩
      · rintro ⟨body, rest, ⟨⟨body', rest'⟩, hcut, e⟩, rfl⟩
        cases e
        exact ⟨body'.length + 2, ih.2 ⟨body', rest', hcut, rfl⟩, by simp⟩

/-- A block comment of a text, with the text behind its opening mark cut at the first closing one. -/
lemma exists_cut_of_blockComment (ht : t ∈ tokens s) (hs : t.lexeme.isSound) (hk : t.kind = .blockComment) :
    ∃ a y body rest, s = a ++ ("/*" ++ y) ∧ a.width = t.start ∧ Text.cut? "*/" y = some (body, rest) ∧
      t.text = "/*" ++ (body ++ "*/") := by
  obtain ⟨a, b, rfl, ha⟩ := text_at_of_mem_tokens ht
  obtain ⟨c, u, htext, hmunch⟩ := exists_munch_of_mem (lexeme_mem_lex ht) hs
  have hform := wholeForm hmunch (kind_ne_stray hs)
  rw [Token.lexeme_kind, hk] at hform
  rw [Token.lexeme_text] at htext
  obtain ⟨rfl, v, rfl, hv⟩ := hform.of_blockComment
  obtain ⟨body, rest, hcut, hlength⟩ := commentEnd?_eq_some_iff.1 ((commentEnd?_append (y := b) (Nat.le_refl _)).2 hv)
  have e : v ++ b = (body ++ ("*/" : Text)) ++ rest := by
    rw [Text.cut?_eq_some hcut]
    simp
  obtain ⟨rfl, rfl⟩ := List.append_inj e (by simp [hlength])
  exact ⟨a, _, body, b, by rw [htext]; rfl, ha, hcut, htext⟩

/-! ### What no token covers -/

lemma all_isBlank_of_blank (hl : l ∈ lex s) (hk : l.kind = .blank) : l.text.all isBlank := by
  have hs : l.isSound := by simp [Lexeme.isSound, hk]
  obtain ⟨c, u, htext, hmunch⟩ := exists_munch_of_mem hl hs
  have hform := wholeForm hmunch (kind_ne_stray hs)
  rw [hk] at hform
  obtain ⟨hc, hu⟩ := hform.of_blank
  rw [htext, List.all_cons, hc, hu, Bool.and_self]

/-- The token that a character belongs to. -/
lemma exists_token_at (h : s = a ++ c :: b) : ∃ t ∈ tokens s, t.start ≤ a.width ∧ a.width < t.stop ∧ c ∈ t.text := by
  obtain ⟨xs, l, ys, p, q, hls, hl, rfl, rfl⟩ := exists_lexeme_at ((joined_lex (s := s)).trans h)
  refine ⟨⟨l.kind, l.text, (joined xs).width⟩, mem_tokens.2 ⟨xs, ys, hls, rfl⟩, ?_, ?_, by simp [hl]⟩
  · simp
  · have := c.utf8Size_pos
    simp only [Token.stop, hl, Text.width_append, Text.width_cons]
    omega

/-- What is not in a token that is kept is blank. -/
lemma isBlank_of_uncovered (h : s = a ++ c :: b)
    (hnone : ∀ t ∈ (tokens s).filter (·.kind ≠ .blank), ¬ (t.start ≤ a.width ∧ a.width < t.stop)) : isBlank c := by
  obtain ⟨t, ht, hstart, hstop, hc⟩ := exists_token_at h
  have hk : t.kind = .blank := by
    by_contra hk
    exact hnone t (List.mem_filter.2 ⟨ht, by simpa using hk⟩) ⟨hstart, hstop⟩
  exact List.all_eq_true.1 (all_isBlank_of_blank (lexeme_mem_lex ht) hk) c hc

lemma bracketKinds_filter_blank : bracketKinds ((ts.filter (·.kind ≠ .blank)).map Token.lexeme) = bracketKinds (ts.map Token.lexeme) := by
  have hblank : ∀ k : Kind, k.isBracket = true → decide (k ≠ .blank) = true := by
    intro k
    cases k <;> decide
  rw [bracketKinds, bracketKinds, List.map_map, List.map_map, List.filter_map, List.filter_map, List.filter_filter]
  congr 1
  refine List.filter_congr fun t _ => ?_
  cases h : t.kind.isBracket <;> simp_all

lemma bracketKinds_tokens : bracketKinds (((tokens s).filter (·.kind ≠ .blank)).map Token.lexeme) = bracketKinds (lex s) := by
  rw [bracketKinds_filter_blank, map_lexeme_tokens]

lemma slice_of_mem_tokens (h : t ∈ tokens s) : Text.slice s t.start t.stop = t.text := by
  obtain ⟨u, v, rfl, hu⟩ := text_at_of_mem_tokens h
  rw [← hu, Token.stop, ← hu, Text.slice_width_append]

/-- **Nothing is lost, and nesting is checked exactly.**  Where a text has tokens, they are no empty ones and stand one behind the
other at places where the text can be cut; every other character is a space, a tab, a carriage return or a form feed; a block
comment ends at the first `*/` behind its opening mark; and the brackets nest.  A text whose lexemes have no fault and whose
brackets nest has tokens. -/
theorem tokenize_covers_and_nests (s : Text) :
    (∀ ts, tokenize s = .ok ts →
      (∀ t ∈ ts, t.start < t.stop ∧ IsBoundary s t.start ∧ IsBoundary s t.stop ∧ Text.slice s t.start t.stop = t.text) ∧
      ts.Pairwise (fun t u => t.stop ≤ u.start) ∧
      (∀ (a : Text) (c : Char) (b : Text), s = a ++ c :: b → (∀ t ∈ ts, ¬ (t.start ≤ a.width ∧ a.width < t.stop)) →
        c = ' ' ∨ c = '\t' ∨ c = '\r' ∨ c = '\x0c') ∧
      (∀ t ∈ ts, t.kind = .blockComment → ∃ a y body rest, s = a ++ ("/*" ++ y) ∧ a.width = t.start ∧
        Text.cut? "*/" y = some (body, rest) ∧ t.text = "/*" ++ (body ++ "*/")) ∧
      WellNested (bracketKinds (ts.map Token.lexeme))) ∧
    ((∀ l ∈ lex s, l.kind ≠ .stray) → (∀ l ∈ lex s, l.kind = .operator → Text.hasPart "/*" l.text = false) →
      WellNested (bracketKinds (lex s)) → ∃ ts, tokenize s = .ok ts) := by
  constructor
  · intro ts h
    obtain ⟨hwhole, hbalanced, rfl⟩ := tokenize_eq_ok_iff.1 h
    have hmem : ∀ t ∈ (tokens s).filter (·.kind ≠ .blank), t ∈ tokens s := fun t ht => (List.mem_filter.1 ht).1
    refine ⟨fun t ht => ?_, pairwise_place.sublist List.filter_sublist, fun a c b hs hnone => ?_, fun t ht hk => ?_, ?_⟩
    · obtain ⟨hstart, hstop⟩ := Token.isIn_of_mem_tokens (hmem t ht)
      exact ⟨start_lt_stop (hmem t ht), hstart, hstop, slice_of_mem_tokens (hmem t ht)⟩
    · exact of_decide_eq_true (isBlank_of_uncovered hs hnone)
    · exact exists_cut_of_blockComment (hmem t ht) (isWhole_iff.1 hwhole _ (lexeme_mem_lex (hmem t ht))) hk
    · rw [bracketKinds_tokens]
      exact isBalanced_iff_wellNested.1 hbalanced
  · intro hstray hoperator hnested
    refine ⟨_, tokenize_eq_ok_iff.2 ⟨isWhole_iff.2 fun l hl => ?_, isBalanced_iff_wellNested.2 hnested, rfl⟩⟩
    have hk := hstray l hl
    have hp := hoperator l hl
    by_cases h : l.kind = .operator
    · rw [Lexeme.isSound, h, hp h]
      rfl
    · simp [Lexeme.isSound, h, hk]

/-- Two groups, and a comment with a bracket that nothing closes. -/
def nestedText : Text := "\x7b/*(*/ [a]\x7d"

lemma lex_nestedText : lex nestedText = [⟨.lbrace, "\x7b"⟩, ⟨.blockComment, "/*(*/"⟩, ⟨.blank, " "⟩, ⟨.lbracket, "["⟩,
    ⟨.ident, "a"⟩, ⟨.rbracket, "]"⟩, ⟨.rbrace, "\x7d"⟩] := by
  unfold nestedText
  repeat rw [String.toList_ofList]
  decide +kernel

/-- That text has tokens, and the space in it is in none of them. -/
theorem nestedText_is_covered : ∃ ts, tokenize nestedText = .ok ts ∧ (∀ t ∈ ts, ¬ (t.start ≤ 6 ∧ 6 < t.stop)) ∧
    WellNested (bracketKinds (ts.map Token.lexeme)) := by
  have hnested : WellNested (bracketKinds (lex nestedText)) := by
    rw [lex_nestedText]
    exact @WellNested.group _ _ [_, _] _ rfl (@WellNested.group _ _ [] _ rfl .nil .nil) .nil
  obtain ⟨ts, hts⟩ := (tokenize_covers_and_nests nestedText).2 (by rw [lex_nestedText]; decide)
    (by rw [lex_nestedText]; decide) hnested
  refine ⟨ts, hts, ?_, ((tokenize_covers_and_nests nestedText).1 ts hts).2.2.2.2⟩
  obtain ⟨-, -, rfl⟩ := tokenize_eq_ok_iff.1 hts
  rw [tokens, lex_nestedText]
  decide

end RuleWeaver.Source
