import RuleWeaver.Proofs.Document.GrowingHeads
import RuleWeaver.Proofs.Source.Coverage

/-!
# Groups without imports

An import that goes into a group without imports is put behind the first parenthesis in the text of the group.  Where this is
the place behind a token, it is the parenthesis of the group (`behindParen_eq`), and the group is again one with the import in it
(`exists_grownHead_of_emptyGroup`).
-/

namespace RuleWeaver

open Source Text

variable {s a b u v p : Text} {tree : Tree} {w o : Token} {F gap R : List Token} {L : List Lexeme} {e : Bool} {n : ℕ} {k : Kind}

/-! ### The first parenthesis -/

namespace Text

lemma strip?_paren {c : Char} : strip? "(" (c :: s) = if c = '(' then some s else none := by
  by_cases h : c = '(' <;> simp [strip?, h, eq_comm]

/-- A text with a parenthesis is cut at the first one. -/
lemma exists_cut?_paren (a b : Text) : ∃ u v c, cut? "(" (a ++ '(' :: b) = some (u, v) ∧ a = u ++ c ∧ '(' ∉ u := by
  induction a with
  | nil => exact ⟨[], b, [], by rw [List.nil_append, cut?, strip?_paren, if_pos rfl], rfl, List.not_mem_nil⟩
  | cons d a ih =>
    rw [List.cons_append, cut?, strip?_paren]
    by_cases hd : d = '('
    · exact ⟨[], a ++ '(' :: b, d :: a, by rw [if_pos hd], rfl, List.not_mem_nil⟩
    · obtain ⟨u, v, c, hcut, rfl, hu⟩ := ih
      refine ⟨d :: u, v, c, by rw [if_neg hd, hcut]; rfl, rfl, ?_⟩
      exact List.not_mem_cons_of_ne_of_not_mem (Ne.symm hd) hu

/-- What has no parenthesis stands in front of the first one. -/
lemma width_le_of_cut? (ha : '(' ∉ a) (h : cut? "(" (a ++ b) = some (u, v)) : a.width ≤ u.width := by
  have hsplit : a ++ b = u ++ '(' :: v := cut?_eq_some h
  rcases List.append_eq_append_iff.1 hsplit with ⟨c, rfl, -⟩ | ⟨c, rfl, hc⟩
  · rw [width_append]
    omega
  · rcases c with _ | ⟨d, c⟩
    · rw [List.append_nil]
    · obtain ⟨rfl, -⟩ := List.cons.inj hc
      simp at ha

end Text

/-- The text of lexemes from one of them on, up to an offset behind others. -/
lemma exists_slice_eq {P W Q : List Lexeme} (hs : lex s = P ++ (W ++ Q)) (hn : IsBoundary s n) (hle : (joined (P ++ W)).width ≤ n) :
    ∃ z, Text.slice s (joined P).width n = joined W ++ z := by
  have hsplit : s = joined (P ++ W) ++ joined Q := by rw [← joined_append, List.append_assoc, ← hs, joined_lex]
  rw [hsplit] at hn
  obtain ⟨z, rest, hz, rfl⟩ := hn.cut hle
  refine ⟨z, ?_⟩
  have hwidth : (joined (P ++ W)).width + z.width = (joined P).width + (joined W ++ z).width := by
    simp only [joined_append, Text.width_append]
    omega
  have hsplit' : s = joined P ++ ((joined W ++ z) ++ rest) := by
    rw [hsplit, hz]
    simp
  rw [hwidth]
  conv_lhs => rw [hsplit']
  exact Text.slice_width_append

/-- The text of a group begins with its keyword, and what stands in front of the parenthesis that opens it. -/
lemma exists_slice_group {g : Span} (hs : tokens s = F ++ w :: (gap ++ o :: R)) (ho : o.text = ['(']) (hstart : w.start = g.start)
    (hle : o.stop ≤ g.stop) (hstop : IsBoundary s g.stop) :
    ∃ z, Text.slice s g.start g.stop = w.text ++ (joined (gap.map Token.lexeme) ++ '(' :: z) := by
  have hs' : tokens s = (F ++ w :: gap) ++ o :: R := by rw [hs]; simp
  have hlex : lex s = F.map Token.lexeme ++ ((w :: gap ++ [o]).map Token.lexeme ++ R.map Token.lexeme) := by
    rw [← map_lexeme_tokens, hs]
    simp
  rw [stop_of_tokens_eq hs', List.append_assoc, List.map_append] at hle
  obtain ⟨z, hz⟩ := exists_slice_eq hlex hstop hle
  refine ⟨z, ?_⟩
  rw [← hstart, start_of_tokens_eq hs, hz]
  simp [ho]

/-- The place behind the first parenthesis of a group, if it is the end of a token, is the one behind the parenthesis that opens
the group. -/
lemma behindParen_eq {g : Span} (hs : tokens s = F ++ w :: (gap ++ o :: R)) (hw : w.kind = .importWord) (ho : o.kind = .lparen)
    (hgap : ∀ t ∈ gap, t.kind.isSignificant = false) (hstart : w.start = g.start) (hle : o.stop ≤ g.stop) (hstop : IsBoundary s g.stop)
    (ht : ∃ t ∈ tokens s, t.kind.isSignificant ∧ t.stop = Document.behindParen s g) : Document.behindParen s g = o.stop := by
  have hs' : tokens s = (F ++ w :: gap) ++ o :: R := by rw [hs]; simp
  have hwmem : w ∈ tokens s := by rw [hs]; simp
  have homem : o ∈ tokens s := by rw [hs']; simp
  have hword : '(' ∉ w.text := by
    obtain ⟨xs, ys, hlex, -⟩ := mem_tokens.1 hwmem
    obtain ⟨-, hall, -⟩ := word_of_lex (lex_joined_right hlex) (by rw [Token.lexeme_kind, hw]; rfl)
    exact fun h => absurd (List.all_eq_true.1 hall _ h) (by decide)
  have hparen : o.text = ['('] := text_of_bracket (l := o.lexeme) (lexeme_mem_lex homem) (by rw [Token.lexeme_kind, ho]; rfl)
  -- the first parenthesis of the group stands behind its keyword, and not behind the one that opens it
  obtain ⟨z, hz⟩ := exists_slice_group hs hparen hstart hle hstop
  obtain ⟨u, v, c, hcut, hc, -⟩ := exists_cut?_paren (w.text ++ joined (gap.map Token.lexeme)) z
  rw [List.append_assoc] at hcut
  have hplace : Document.behindParen s g = w.start + u.width + 1 := by rw [Document.behindParen, hz, hcut, hstart]
  have hlower : w.stop < Document.behindParen s g := by
    have := width_le_of_cut? hword hcut
    rw [hplace, Token.stop]
    omega
  have hupper : Document.behindParen s g ≤ o.stop := by
    have hwidth := congrArg Text.width hc
    have hostart := start_of_tokens_eq hs'
    have hwstart := start_of_tokens_eq hs
    have hone : Text.width ['('] = 1 := rfl
    simp only [List.map_append, List.map_cons, joined_append, joined_cons, Text.width_append] at hwidth hostart
    rw [hplace, Token.stop, hparen, hone, hostart, hwstart]
    simp only [Token.lexeme_text]
    omega
  -- no other token ends there
  obtain ⟨t, ht, hsig, htstop⟩ := ht
  rw [← htstop] at hlower hupper ⊢
  have hmem := ht
  rw [hs', List.mem_append, List.mem_append, List.mem_cons, List.mem_cons] at hmem
  rcases hmem with (hmem | rfl | hmem) | rfl | hmem
  · have := stop_le_of_tokens_eq hs hmem
    have := start_lt_stop hwmem
    omega
  · omega
  · rw [hgap t hmem] at hsig
    cases hsig
  · rfl
  · obtain ⟨C, D, rfl⟩ := List.append_of_mem hmem
    have := stop_le_of_tokens_eq (show tokens s = (F ++ w :: gap ++ o :: C) ++ t :: D by rw [hs']; simp) (v := o) (by simp)
    have := start_lt_stop ht
    omega

/-! ### A path behind the parenthesis -/

/-- Code behind the end of a statement begins as it does elsewhere, but for that end. -/
lemma statementPart_true_cases (L : List Lexeme) :
    statementPart true L = statementPart false L ∨ statementPart true L = .impliedSemi :: statementPart false L := by
  induction L with
  | nil => exact .inl rfl
  | cons l L ih =>
    rw [statementPart, statementPart]
    split
    · exact .inr rfl
    split
    · exact ih
    · exact .inl rfl

lemma endingBehind_of_false (h : endingBehind false L = true) : endingBehind e L = true := by
  induction L generalizing e with
  | nil => cases h
  | cons l L ih =>
    rw [endingBehind] at h ⊢
    split
    · next hbreak => rwa [if_pos hbreak] at h
    next hbreak =>
    rw [if_neg hbreak] at h
    split
    · next hblank =>
      rw [if_pos hblank] at h
      exact ih h
    · next hblank => rwa [if_neg hblank] at h

/-- The code of a path on a line of its own, where no statement ends. -/
lemma statementPart_path : statementPart false [⟨.newline, ['\n']⟩, ⟨.blank, ['\t']⟩, ⟨.string, quote p⟩] = [⟨.string, quote p⟩] ∧
    endingBehind false [⟨.newline, ['\n']⟩, ⟨.blank, ['\t']⟩, ⟨.string, quote p⟩] = true := ⟨rfl, rfl⟩

/-- A path may stand in a group that was empty. -/
lemma isGroupCode_path_semis (hk : k.isPath) (n : ℕ) : IsGroupCode (k :: (List.replicate n .semi ++ [.rparen])) := by
  cases n with
  | zero => exact .last (.plain hk)
  | succ n => exact .spec (.plain hk) (.semis n .close)

/-- A group without imports among the tokens of a head. -/
structure EmptyGroup {hd : Head s tree} (k : hd.Cut) (g : ImportDecl) where
  front : List Token
  keyword : Token
  gap : List Token
  paren : Token
  behind : List Token
  tokens_eq : k.front ++ [k.last] = front ++ keyword :: (gap ++ paren :: behind)
  keyword_kind : keyword.kind = .importWord
  paren_kind : paren.kind = .lparen
  gap_kind : ∀ t ∈ gap, t.kind.isSignificant = false
  start : keyword.start = g.span.start
  stop_le : paren.stop ≤ g.span.stop
  /-- The code in front of the parenthesis. -/
  statements : List Lexeme
  statements_eq : statementPart false ((front ++ keyword :: (gap ++ [paren])).map Token.lexeme) = statements ++ [paren.lexeme]
  code : ∃ (n : ℕ) (C : List Kind), (statementPart false (behind.map Token.lexeme)).map Lexeme.kind = List.replicate n .semi ++ .rparen :: C ∧
    ∀ L, IsGroupCode L → IsHeadCode (statements.map Lexeme.kind ++ .lparen :: (L ++ C))

/-- A group ends behind the parenthesis that opens it. -/
lemma paren_stop_le {A G C : List Token} {m : ℕ} (hs : statementTokens s = A ++ o :: (G ++ C)) (ho : o.kind = .lparen)
    (hG : G.map (·.kind) = List.replicate n .semi ++ [.rparen]) (hstop : ∀ t ∈ G.getLast?, t.stop = m) : o.stop ≤ m := by
  obtain ⟨S, V, rfl, -, hV⟩ := List.map_eq_append_iff.1 hG
  obtain ⟨r, rfl, hr⟩ := List.map_eq_singleton_iff.1 hV
  have hordered : AreOrdered (o :: ((S ++ [r]) ++ C)) := by
    have h := areOrdered_statementTokens (s := s)
    rw [hs] at h
    exact h.sublist (List.sublist_append_right ..)
  have hle : o.stop ≤ r.start :=
    List.rel_of_pairwise_cons hordered (by simp) (by rw [ho]; decide) (by rw [hr]; decide)
  have hrstop := hstop r (by simp)
  rw [Token.stop] at hrstop
  omega

/-- The first token with a meaning, where the code of tokens begins with it. -/
lemma exists_tokens_of_statementPart {zs : List Lexeme} (h : statementPart false (R.map Token.lexeme) = o.lexeme :: zs) (ho : o.kind ≠ .semi) :
    ∃ gap o' R', R = gap ++ o' :: R' ∧ o'.lexeme = o.lexeme ∧ (∀ t ∈ gap, t.kind.isSignificant = false) ∧
      statementPart o.kind.endsStatement (R'.map Token.lexeme) = zs := by
  obtain ⟨gap, ys, hgap, hall, hys⟩ := statementPart_eq_cons h (by rwa [Token.lexeme_kind])
  obtain ⟨gap, R, rfl, rfl, hR⟩ := List.map_eq_append_iff.1 hgap
  obtain ⟨o', R, rfl, ho', rfl⟩ := List.map_eq_cons_iff.1 hR
  exact ⟨gap, o', R, rfl, ho', fun t ht => hall t.lexeme (List.mem_map_of_mem ht), hys.symm⟩

lemma exists_emptyGroup {hd : Head s tree} (k : hd.Cut) {g : ImportDecl} (hg : g ∈ tree.imports) (hgrouped : g.grouped)
    (hspecs : g.specs = []) : Nonempty (EmptyGroup k g) := by
  obtain ⟨A, w, o, G, C, l, hts, hstart, hw, ho, hstop, hl, hread, hcode⟩ := hd.exists_group hg hgrouped
  obtain ⟨n, hG⟩ := hread.empty hspecs
  have hstatements : k.statements = A ++ w :: (o :: (G ++ C)) := by
    have h := k.statementTokens_eq
    rw [hts, show A ++ w :: o :: (G ++ (C ++ l :: hd.rest)) = (A ++ w :: o :: (G ++ C)) ++ l :: hd.rest by simp] at h
    exact (List.append_inj_left' h rfl).symm
  obtain ⟨F, F₂, hF, hsig, hD₁, hD₂⟩ := k.exists_split hstatements (by rw [hw]; decide)
  have hwend : w.kind.endsStatement = false := by rw [hw]; rfl
  -- nothing of meaning stands between the keyword and the parenthesis
  rw [List.map_cons, hwend] at hD₂
  obtain ⟨gap, o', R, rfl, ho', hgapkind, hcodeR⟩ := exists_tokens_of_statementPart hD₂.symm (by rw [ho]; decide)
  have hkind : o'.kind = .lparen := (congrArg Lexeme.kind ho').trans ho
  have hosig : o'.kind.isSignificant := by rw [hkind]; rfl
  have hgaplexemes : ∀ l ∈ gap.map Token.lexeme, l.kind.isSignificant = false := List.forall_mem_map.2 hgapkind
  obtain ⟨hgappart, hgapend⟩ := statementPart_of_forall_not_isSignificant hgaplexemes
  have hpart : statementPart false ((F ++ w :: gap).map Token.lexeme) = (A ++ [w]).map Token.lexeme ∧
      endingBehind false ((F ++ w :: gap).map Token.lexeme) = false := by
    have hsplit : (F ++ w :: gap).map Token.lexeme = (F ++ [w]).map Token.lexeme ++ gap.map Token.lexeme := by simp
    have hend : endingBehind false ((F ++ [w]).map Token.lexeme) = false := by
      rw [List.map_append, endingBehind_append, List.map_singleton, endingBehind_cons_of_isSignificant (l := w.lexeme) hsig]
      exact hwend
    rw [hsplit, statementPart_append, endingBehind_append, ← hD₁, hend, hgappart, hgapend, List.append_nil]
    exact ⟨rfl, rfl⟩
  have hopen : (F ++ w :: (gap ++ [o'])).map Token.lexeme = (F ++ w :: gap).map Token.lexeme ++ [o'.lexeme] := by simp
  -- the parenthesis stands where the group has it
  have htokens : tokens s = (F ++ w :: gap) ++ o' :: (R ++ k.behind) := by
    rw [k.tokens_eq, ← List.singleton_append (x := k.last), ← List.append_assoc, hF]
    simp
  have hostart : o.start = o'.start := by
    have hlex : lex s = (F ++ w :: gap).map Token.lexeme ++ o'.lexeme :: (R ++ k.behind).map Token.lexeme := by
      rw [← map_lexeme_tokens, htokens]
      simp
    rw [start_of_tokens_eq htokens]
    have hts' : statementTokens s = (A ++ [w]) ++ o :: (G ++ (C ++ l :: hd.rest)) := by rw [hts]; simp
    exact (start_of_statementTokens hts' (by rw [ho]; decide) hlex hosig (by rw [hpart.1, List.length_map])).1
  have hle : o.stop ≤ g.span.stop :=
    paren_stop_le (show statementTokens s = (A ++ [w]) ++ o :: (G ++ (C ++ l :: hd.rest)) by rw [hts]; simp) ho hG hstop
  refine ⟨⟨F, w, gap, o', R, hF, hw, hkind, hgapkind, hstart, ?_, (A ++ [w]).map Token.lexeme, ?_, n, C.map (·.kind), ?_, fun L hL => ?_⟩⟩
  · have htext : o'.text = o.text := congrArg Lexeme.text ho'
    rwa [Token.stop, ← hostart, htext]
  · rw [hopen, statementPart_append, hpart.1, hpart.2, statementPart_cons_of_isSignificant (l := o'.lexeme) hosig]
    rfl
  · have hoend : o.kind.endsStatement = false := by rw [ho]; rfl
    rw [hoend] at hcodeR
    have hkinds : (G ++ C).map (·.kind) = List.replicate n .semi ++ .rparen :: C.map (·.kind) := by
      rw [List.map_append, hG]
      simp
    rw [hcodeR, List.map_map, ← hkinds]
    rfl
  · have := hcode L hL
    simpa [hw, Function.comp_def] using this

/-- An import goes behind a parenthesis, where only the end of a group stands behind it. -/
lemma nonempty_grownHead_behind_paren {front behind K : List Lexeme} {paren : Lexeme} {edit : Edit} {C : List Kind} (hparen : paren.kind = .lparen)
    (hfront : statementPart false front = K ++ [paren]) (hend : endingBehind false front = false) (hending : endingBehind false behind = true)
    (hbehind : (statementPart false behind).map Lexeme.kind = List.replicate n .semi ++ .rparen :: C)
    (hcode : ∀ L, IsGroupCode L → IsHeadCode (K.map Lexeme.kind ++ .lparen :: (L ++ C))) (hat : Document.AreAt (joined front).width [edit])
    (hpiece : (pieces [edit]).flatten = '\n' :: '\t' :: quote p) : Nonempty (GrownHead (front ++ behind) [edit] [⟨none, p⟩]) := by
  have hname : ¬ (paren.kind = .ident ∨ paren.kind = .dot) := by
    rw [hparen]
    decide
  have hadded : IsAddedImport [⟨none, p⟩] (pieces [edit]).flatten [⟨.newline, ['\n']⟩, ⟨.blank, ['\t']⟩, ⟨.string, quote p⟩] := by
    rw [hpiece]
    exact .grouped p
  refine ⟨⟨front, behind, _, rfl, hat, hadded, ⟨?_, ?_⟩, importLines none (statementPart false front),
    importLines none (statementPart false behind), ?_, ?_⟩⟩
  · rw [endingBehind_append, endingBehind_append]
    exact endingBehind_of_false hending
  · rw [statementPart_append, hend, statementPart_append, statementPart_path.1, statementPart_path.2, hfront]
    rcases statementPart_true_cases behind with e | e
    · have := hcode _ (isGroupCode_path_semis (k := .string) rfl n)
      rw [e]
      simpa [hbehind, hparen] using this
    · have := hcode _ (isGroupCode_path_semis (k := .string) rfl (n + 1))
      rw [e]
      simpa [hbehind, hparen, Lexeme.impliedSemi, List.replicate_succ] using this
  · rw [statementPart_append, hend, hfront, List.append_assoc, List.singleton_append, importLines_append hname]
  · rw [statementPart_append, hend, statementPart_append, statementPart_path.1, statementPart_path.2, hfront, List.append_assoc,
      List.singleton_append, importLines_append hname, List.singleton_append, importLines_path (l := ⟨.string, quote p⟩) rfl,
      Text.unquote_quote]
    rcases statementPart_true_cases behind with e | e
    · rw [e]
      rfl
    · rw [e, importLines_other (l := .impliedSemi) rfl (by decide)]
      rfl

/-- **An import goes into a group without imports**, if its place is the end of a token. -/
lemma exists_grownHead_of_emptyGroup {hd : Head s tree} (k : hd.Cut) {g : ImportDecl} (hs : parse s = .ok tree)
    (hgroup : tree.imports.reverse.find? (·.grouped) = some g) (hspecs : g.specs = []) (p : Text)
    (hplace : ∃ t ∈ tokens s, t.kind.isSignificant ∧ t.stop = (importEdit s tree ⟨none, p⟩).span.start) :
    Nonempty (GrownHead k.lexemes [importEdit s tree ⟨none, p⟩] [⟨none, p⟩]) := by
  have hg : g ∈ tree.imports := List.mem_reverse.1 (List.mem_of_find?_eq_some hgroup)
  obtain ⟨F, w, gap, o, R, hF, hw, ho, hgap, hstart, hle, K, hK, n, C, hR, hcode⟩ := exists_emptyGroup k hg (List.find?_some hgroup) hspecs
  have hedit : importEdit s tree ⟨none, p⟩ = ⟨⟨Document.behindParen s g.span, Document.behindParen s g.span⟩, .importSpec ⟨none, p⟩⟩ := by
    simp [importEdit, hgroup, hspecs]
  have htokens : tokens s = F ++ w :: (gap ++ o :: (R ++ k.behind)) := by
    rw [k.tokens_eq, ← List.singleton_append (x := k.last), ← List.append_assoc, hF]
    simp
  have hstop : Document.behindParen s g.span = (joined ((F ++ w :: (gap ++ [o])).map Token.lexeme)).width := by
    rw [hedit] at hplace
    rw [behindParen_eq htokens hw ho hgap hstart hle ((parse_isBoundary hs).2 g hg).stop hplace,
      stop_of_tokens_eq (show tokens s = (F ++ w :: gap) ++ o :: (R ++ k.behind) by rw [htokens]; simp)]
    simp
  have hhead : k.lexemes = (F ++ w :: (gap ++ [o])).map Token.lexeme ++ R.map Token.lexeme := by
    rw [Head.Cut.lexemes, hF]
    simp
  have hend : endingBehind false ((F ++ w :: (gap ++ [o])).map Token.lexeme) = false := by
    have hsplit : (F ++ w :: (gap ++ [o])).map Token.lexeme = (F ++ w :: gap).map Token.lexeme ++ [o.lexeme] := by simp
    rw [hsplit, endingBehind_append, endingBehind_cons_of_isSignificant (l := o.lexeme) (by rw [Token.lexeme_kind, ho]; rfl),
      Token.lexeme_kind, ho]
    rfl
  have hending := k.endingBehind_lexemes
  rw [hhead, endingBehind_append, hend] at hending
  rw [hhead]
  have hparen : o.lexeme.kind = .lparen := ho
  refine nonempty_grownHead_behind_paren hparen hK hend hending hR hcode (areAt_of_span (by rw [hedit, hstop])) ?_
  rw [pieces, List.map_singleton, List.flatten_singleton, hedit]
  rfl

/-- **A head may gain an import**, if the place of the import is the end of a token. -/
theorem exists_grownHead_at_token {hd : Head s tree} (k : hd.Cut) (hs : parse s = .ok tree) (p : Text)
    (hplace : ∃ t ∈ tokens s, t.kind.isSignificant ∧ t.stop = (importEdit s tree ⟨none, p⟩).span.start) :
    Nonempty (GrownHead k.lexemes [importEdit s tree ⟨none, p⟩] [⟨none, p⟩]) := by
  cases hgroup : tree.imports.reverse.find? (·.grouped) with
  | some g =>
    cases hlast : g.specs.getLast? with
    | some spec => exact exists_grownHead_of_group k hgroup hlast p
    | none => exact exists_grownHead_of_emptyGroup k hs hgroup (List.getLast?_eq_none_iff.1 hlast) p hplace
  | none => exact exists_grownHead_without_group k hgroup p

end RuleWeaver
