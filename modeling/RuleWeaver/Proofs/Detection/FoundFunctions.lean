import RuleWeaver.Proofs.Detection.Declared
import RuleWeaver.Proofs.Source.Coverage

/-!
# Functions that are found

Functions are looked for line by line and not among declarations.  In a file that is read, what is found are the functions
whose declarations begin lines, and heads inside of a span, as in a raw string or in a body (`functions_found_iff`).
-/

namespace RuleWeaver

open Source
open Detection (FunctionHead HasFunctionHead IsFoundName freshBehind skipGap)
open Unicode (isSpace isWord)

variable {s name n : Text} {tree : Tree} {d : Decl} {span : Option Span} {k : Nat} {t : Token}

/-- Whether the head of a function begins a line at an offset, comments apart. -/
def Detection.HeadAt (name s : Text) (k : Nat) : Prop :=
  ∃ u v rest, commentsBlanked s = u ++ v ∧ u.width = k ∧ freshBehind true u ∧ FunctionHead name v rest

open Detection (HeadAt)

lemma hasFunctionHead_iff : HasFunctionHead name s ↔ ∃ k, HeadAt name s k := by
  constructor
  · rintro ⟨u, v, rest, hcode, hfresh, hhead⟩
    exact ⟨u.width, u, v, rest, hcode, rfl, hfresh, hhead⟩
  · rintro ⟨k, u, v, rest, hcode, -, hfresh, hhead⟩
    exact ⟨u, v, rest, hcode, hfresh, hhead⟩

/-! ### Heads at declarations -/

/-- A name is read from a name of the tree as far as that has no white space around it. -/
lemma trim_eq_of_head {g g' w w' z z' : Text} {b c : Char} (hg : g.all isSpace) (hg' : g'.all isSpace) (hw : w.all isSpace)
    (hw' : w'.all isSpace) (hb : b = '(' ∨ b = '[') (hc : c = '(' ∨ c = '[') (hn : n.all isNameChar) (hname : IsFoundName name)
    (h : w ++ (name ++ (w' ++ c :: z)) = g ++ (n ++ (g' ++ b :: z'))) : Text.trim n = name := by
  have hword : ∀ y ∈ name, isWord y := List.all_eq_true.1 hname.all_isWord
  obtain ⟨x, t, hxt, hx, -⟩ := hname
  have hleft : skipGap (w ++ (name ++ (w' ++ c :: z))) = name ++ (w' ++ c :: z) := by
    rw [hxt]
    exact Detection.skipGap_gap hw (Detection.not_isSpace_of_start hx)
  rw [h, Detection.skipGap_append_of_all hg] at hleft
  have hsome : n.all isSpace = false := by
    by_contra hall
    rw [Bool.not_eq_false] at hall
    rw [Detection.skipGap_append_of_all hall, Detection.skipGap_gap hg' (Detection.isSpace_of_bracket hb).1, hxt] at hleft
    rw [← (List.cons.inj hleft).1] at hx
    rcases hb with rfl | rfl <;> exact absurd hx (by decide)
  rw [Detection.skipGap_append hsome, ← List.append_assoc, ← List.append_assoc] at hleft
  -- both sides go on up to the same bracket
  let p : Char → Bool := fun y => y ≠ '(' ∧ y ≠ '['
  have hbracket : ∀ {y : Char}, y = '(' ∨ y = '[' → p y = false := by
    rintro y (rfl | rfl) <;> rfl
  have hplain : ∀ {q : Char → Bool} {u : Text}, q '(' = false → q '[' = false → (∀ y ∈ u, q y) → ∀ y ∈ u, p y := by
    intro q u h₁ h₂ hq y hy
    have hy := hq y hy
    by_contra hp
    simp only [p, decide_eq_true_eq, not_and_or, not_not] at hp
    rcases hp with rfl | rfl
    · rw [h₁] at hy
      cases hy
    · rw [h₂] at hy
      cases hy
  have hspace : ∀ {u : Text}, u.all isSpace → ∀ y ∈ u, p y := fun hu => hplain (by decide) (by decide) (List.all_eq_true.1 hu)
  have hfront : ∀ y ∈ name ++ w', p y :=
    List.forall_mem_append.2 ⟨hplain (by decide) (by decide) hword, hspace hw'⟩
  have hbehind : ∀ y ∈ skipGap n ++ g', p y :=
    List.forall_mem_append.2 ⟨fun y hy =>
      hplain (by decide) (by decide) (List.all_eq_true.1 hn) y ((List.dropWhile_sublist _).mem hy), hspace hg'⟩
  have htake := congrArg (List.takeWhile p) hleft
  rw [Text.takeWhile_append_cons (hbracket hb), Text.takeWhile_append_cons (hbracket hc), List.takeWhile_eq_self_iff.2 hbehind,
    List.takeWhile_eq_self_iff.2 hfront] at htake
  have hsolid : ∀ y ∈ name, isSpace y = false := by
    intro y hy
    by_contra hspace
    have := Detection.not_isWord_of_isSpace (by simpa using hspace : isSpace y = true)
    rw [hword y hy] at this
    cases this
  have htrim := congrArg Text.trimEnd htake
  rw [Text.trimEnd_append_of_all hg', Text.trimEnd_append_of_all hw', Text.trimEnd_eq_self hsolid] at htrim
  exact htrim

/-- **Which head stands at a function.** -/
lemma headAt_function_iff (htree : parse s = .ok tree) (hd : d ∈ tree.decls) (hkind : d.kind = .function ⟨n, none, span⟩) :
    HeadAt name s d.span.start ↔ d.BeginsLine s ∧ Text.trim n = name ∧ IsFoundName name := by
  obtain ⟨u, g, g', b, rest, hcode, hwidth, hfresh, hne, hg, hg', hb, hn⟩ := exists_code_of_function htree hd hkind
  constructor
  · rintro ⟨u', v, rest', hcode', hwidth', hfresh', w, w', c, -, hw, hname, hw', hc, hv⟩
    obtain ⟨rfl, rfl⟩ := Text.append_inj_of_width (hcode'.symm.trans hcode) (hwidth'.trans hwidth.symm)
    exact ⟨hfresh.1 hfresh', trim_eq_of_head hg hg' hw hw' hb hc hn hname (List.append_cancel_left hv).symm, hname⟩
  · rintro ⟨hline, htrim, hname⟩
    obtain ⟨x, y, hxy, hx, hy⟩ := Text.exists_trim n
    rw [htrim] at hxy
    refine ⟨u, _, rest, hcode, hwidth, hfresh.2 hline, g ++ x, y ++ g', b, by simp [hne], by rw [List.all_append, hg, hx]; rfl,
      hname, by rw [List.all_append, hy, hg']; rfl, hb, ?_⟩
    rw [hxy]
    simp only [List.append_assoc]

/-- The code of a file cut in front of a token. -/
lemma exists_code_of_token (ht : t ∈ tokens s) : ∃ xs ys, lex s = xs ++ t.lexeme :: ys ∧
    commentsBlanked s = codeOf xs ++ (t.lexeme.code ++ codeOf ys) ∧ (codeOf xs).width = t.start := by
  obtain ⟨xs, ys, hlex, hstart⟩ := mem_tokens.1 ht
  refine ⟨xs, ys, hlex, ?_, by rw [width_codeOf, hstart]⟩
  rw [commentsBlanked_eq, hlex, codeOf_append, codeOf_cons]

/-- No head stands at another keyword. -/
lemma not_headAt_of_keyword (ht : t ∈ tokens s) (hk : t.kind ∈ [Kind.packageWord, .importWord, .typeWord, .varWord, .constWord]) :
    ¬ HeadAt name s t.start := by
  rintro ⟨u, v, rest, hcode, hwidth, -, hhead⟩
  obtain ⟨xs, ys, hlex, hcode', hwidth'⟩ := exists_code_of_token ht
  obtain ⟨-, rfl⟩ := Text.append_inj_of_width (hcode.symm.trans hcode') (hwidth.trans hwidth'.symm)
  have hword : t.lexeme.kind.isWord := by
    revert hk
    show t.kind ∈ _ → t.kind.isWord = true
    cases t.kind <;> decide
  obtain ⟨hkind, -, -⟩ := word_of_lex (lex_joined_right hlex) hword
  have hfirst : t.text.head? ≠ some 'f' ∧ t.text ≠ [] := by
    have hkind : wordKind t.text = t.kind := hkind
    rw [← hkind] at hk
    revert hk
    fun_cases wordKind t.text <;> simp_all
  have hplain : t.lexeme.code = t.text := by
    have hcomment : t.lexeme.kind.isComment = false := by
      revert hk
      show t.kind ∈ _ → t.kind.isComment = false
      cases t.kind <;> decide
    rw [Lexeme.code, hcomment]
    rfl
  have hhead := hhead.head?
  obtain ⟨c, r, hr⟩ := List.exists_cons_of_ne_nil hfirst.2
  rw [hplain, hr] at hhead
  rw [hr] at hfirst
  exact hfirst.1 hhead

/-- A method has a parenthesis behind its keyword. -/
lemma Source.Cursor.kind?_of_receiver {c d' : Cursor} {r : Receiver} (h : c.function = .ok (⟨n, some r, span⟩, d')) :
    c.kind? = some .lparen := by
  obtain ⟨receiver, d, t, d₂, d₃, parameters, d₄, body, hreceiver, -, -, -, -, hfunction⟩ := Cursor.function_eq_ok_iff.1 h
  obtain ⟨-, rfl, -⟩ := Function.mk.inj hfunction
  obtain ⟨hk, -⟩ | ⟨-, hnone, -⟩ := Cursor.receiver?_eq_ok_iff.1 hreceiver
  · exact hk
  · cases hnone

/-- The lexemes that a method begins with. -/
lemma Source.Decl.StandsAt.opensMethod {r : Receiver} {front body behind : List Token} {last : Token}
    (hat : d.StandsAt s front body last behind) (hkind : d.kind = .function ⟨n, some r, span⟩) :
    ∃ (keyword o : Lexeme) (g tail : List Lexeme), (body ++ [last]).map Token.lexeme = keyword :: (g ++ o :: tail) ∧ IsGapCode g ∧
      keyword.kind = .funcWord ∧ o.kind = .lparen := by
  obtain ⟨c, d', ts, hread, hahead, hpart, -⟩ := hat.read
  rw [hkind] at hread
  obtain ⟨hk, hfunction⟩ := keyword_of_declKind hread
  obtain ⟨keyword, us, hus, hkeyword⟩ := Cursor.kind?_eq_some hk
  have hadvance : c.advance.ahead = us := by rw [Cursor.advance, hus]
  obtain ⟨o, rest, ho, hokind⟩ := Cursor.kind?_eq_some (Cursor.kind?_of_receiver hfunction)
  rw [hadvance] at ho
  -- these two tokens stand in front of what is left
  obtain ⟨us, rfl⟩ : ∃ us, ts = keyword :: o :: us := by
    have hsize := Cursor.function_shorter hfunction
    rw [Cursor.size, Cursor.size, hadvance, ho, List.length_cons] at hsize
    rw [hus, ho] at hahead
    have hlength := congrArg List.length hahead
    simp only [List.length_cons, List.length_append] at hlength
    have hfront : [keyword, o] <+: keyword :: o :: rest := ⟨rest, rfl⟩
    obtain ⟨us, h⟩ := List.prefix_of_prefix_length_le hfront ⟨_, hahead.symm⟩ (by simp only [List.length_cons, List.length_nil]; omega)
    exact ⟨us, h.symm⟩
  obtain ⟨xs, hxs, hpart⟩ := hat.begins (by rw [hkeyword]; decide) hpart
  simp only [List.map_cons] at hpart
  obtain ⟨g, ys, rfl, hg, -⟩ := statementPart_eq_cons hpart.symm (by rw [Token.lexeme_kind, hokind]; decide)
  exact ⟨keyword.lexeme, o.lexeme, g, ys, hxs, hg, hkeyword, hokind⟩

/-- No head of a function without receiver stands at a method. -/
lemma not_headAt_method {r : Receiver} (htree : parse s = .ok tree) (hd : d ∈ tree.decls)
    (hkind : d.kind = .function ⟨n, some r, span⟩) : ¬ HeadAt name s d.span.start := by
  rintro ⟨u, v, rest, hcode, hwidth, -, w, w', b, -, hw, ⟨x, t, rfl, hx, -⟩, -, -, hv⟩
  obtain ⟨front, body, last, behind, hat⟩ := exists_standsAt htree hd
  obtain ⟨hlex, hfront, -⟩ := hat.exists_code
  obtain ⟨keyword, o, g, tail, hlexemes, hg, hkeyword, ho⟩ := hat.opensMethod hkind
  have hlex : lex s = front.map Token.lexeme ++ keyword :: (g ++ o :: (tail ++ behind.map Token.lexeme)) := by
    rw [hlex, hlexemes]
    simp
  have hmem : ∀ l ∈ g ++ o :: (tail ++ behind.map Token.lexeme), l ∈ lex s := by
    intro l hl
    rw [hlex]
    exact List.mem_append_right _ (List.mem_cons_of_mem _ hl)
  have hfunc := (funcWord_of_lex (lex_joined_right hlex) hkeyword).1
  have hparen : o.text = ['('] := text_of_bracket (hmem o (by simp)) (by rw [ho]; rfl)
  have hplain : keyword.code = "func".toList ∧ o.code = ['('] := by
    simp only [Lexeme.code, hkeyword, ho, hfunc, hparen]
    exact ⟨rfl, rfl⟩
  rw [commentsBlanked_eq, hlex, codeOf_append, codeOf_cons, codeOf_append, codeOf_cons, hplain.1, hplain.2] at hcode
  obtain ⟨-, hcode⟩ := Text.append_inj_of_width hcode (hfront.trans hwidth.symm)
  -- behind the keyword, a parenthesis is next and not a name
  have hgap := congrArg skipGap (List.append_cancel_left (hcode.trans hv))
  have hspace := all_isSpace_codeOf_gap (fun l hl => hmem l (by simp [hl])) hg
  rw [List.cons_append, List.nil_append, Detection.skipGap_gap hspace (by decide), List.cons_append,
    Detection.skipGap_gap hw (Detection.not_isSpace_of_start hx)] at hgap
  rw [← (List.cons.inj hgap).1] at hx
  revert hx
  decide

/-! ### Where parts begin -/

lemma Source.Cursor.funcWord_of_declKind {c d' : Cursor} {kind : DeclKind} (h : c.declKind = .ok (kind, d'))
    (hk : c.kind? = some .funcWord) : ∃ f, kind = .function f := by
  unfold Cursor.declKind at h
  rw [hk] at h
  obtain ⟨r, e, h⟩ := exists_of_map_eq_ok h
  simp only [Prod.mk.injEq] at h
  exact ⟨r.1, h.1.symm⟩

/-- A declaration begins at its keyword. -/
lemma exists_keyword_of_decl (htree : parse s = .ok tree) (hd : d ∈ tree.decls) :
    ∃ t ∈ tokens s, t.start = d.span.start ∧ t.kind ∈ [Kind.typeWord, .funcWord, .varWord, .constWord] ∧
      (t.kind = .funcWord → ∃ f, d.kind = .function f) := by
  obtain ⟨y, c, c', hpass, hdecl, rfl⟩ := parse_decl htree hd
  obtain ⟨e, hread, -, hspan⟩ := Cursor.decl_eq_ok hdecl
  obtain ⟨t, ts, hreads, hk⟩ := Cursor.declKind_reads hread
  have hstart : t.start = y.span.start := by
    rw [hspan, Cursor.start, hreads.ahead]
    rfl
  have hsemi : t.kind ≠ .semi := by
    intro hsemi
    rw [hsemi] at hk
    revert hk
    decide
  refine ⟨t, mem_tokens_of_mem_statementTokens (hpass.suffix.mem (by rw [hreads.ahead]; simp)) hsemi, hstart, hk, fun hfunc => ?_⟩
  exact Cursor.funcWord_of_declKind hread (by rw [Cursor.kind?, hreads.ahead, ← hfunc]; rfl)

/-- So does an import. -/
lemma Source.Cursor.exists_keyword_of_import {c c' : Cursor} {is : List ImportDecl} {i : ImportDecl} (h : c.imports = .ok (is, c'))
    (hi : i ∈ is) : ∃ t ∈ c.ahead, t.start = i.span.start ∧ t.kind = .importWord := by
  fun_induction Cursor.imports c generalizing is with
  | case1 => cases h
  | case2 c hk j e hread hlt ih =>
    obtain ⟨r, hmore, h⟩ := exists_of_map_eq_ok h
    simp only [Prod.mk.injEq] at h
    obtain ⟨rfl, rfl⟩ := h
    obtain ⟨ts, e', -, hreads, hend, hspan⟩ := importDecl_eq_ok hk hread
    rcases List.mem_cons.1 hi with rfl | hi
    · obtain ⟨t, us, ht, htk⟩ := Cursor.kind?_eq_some hk
      refine ⟨t, pastSemis_suffix.mem (by rw [ht]; simp), ?_, htk⟩
      rw [hspan, Cursor.start, ht]
      rfl
    · obtain ⟨t, ht, hkeyword⟩ := ih hmore hi
      have hsuffix := (hreads.suffix.trans pastSemis_suffix)
      exact ⟨t, hsuffix.mem ((Cursor.endDeclaration_passes hend).suffix.mem ht), hkeyword⟩
  | case3 =>
    cases h
    cases hi

/-- **Which heads stand where a part of a file begins**: those of functions. -/
lemma exists_decl_of_headAt (htree : parse s = .ok tree) {a : Span} (ha : a ∈ tree.package.span :: tree.parts.map (·.span))
    (hhead : HeadAt name s a.start) : ∃ d ∈ tree.decls, ∃ n body, d.kind = .function ⟨n, none, body⟩ ∧ d.span = a := by
  have other : ∀ {t : Token} {k : Kind}, t ∈ tokens s → t.start = a.start → t.kind = k →
      k ∈ [Kind.packageWord, .importWord, .typeWord, .varWord, .constWord] → False := by
    rintro t k ht hstart rfl hk
    rw [← hstart] at hhead
    exact not_headAt_of_keyword ht hk hhead
  rcases List.mem_cons.1 ha with rfl | ha
  · obtain ⟨-, -, package, c, is, c', ds, hpackage, -, -, rfl⟩ := parse_eq_ok htree
    obtain ⟨keyword, n, e, hreads, hk, -, -, rfl⟩ := packageClause_eq_ok hpackage
    have hmem : keyword ∈ statementTokens s := (pastSemis_suffix (c := ⟨0, statementTokens s⟩)).mem (by rw [hreads.ahead]; simp)
    exact (other (mem_tokens_of_mem_statementTokens hmem (by rw [hk]; decide)) rfl hk (by decide)).elim
  rw [Tree.parts, List.map_append, List.map_map, List.map_map, List.mem_append] at ha
  rcases ha with ha | ha
  · obtain ⟨i, hi, rfl⟩ := List.mem_map.1 ha
    obtain ⟨-, -, package, c, is, c', ds, hpackage, himports, -, rfl⟩ := parse_eq_ok htree
    obtain ⟨keyword, n, e, hreads, -, -, hend, rfl⟩ := packageClause_eq_ok hpackage
    obtain ⟨j, hj, rfl⟩ := List.mem_map.1 hi
    obtain ⟨t, ht, hstart, hk⟩ := Cursor.exists_keyword_of_import himports hj
    have hsuffix := (hreads.suffix.trans pastSemis_suffix)
    have hmem : t ∈ statementTokens s := hsuffix.mem ((Cursor.endDeclaration_passes hend).suffix.mem ht)
    exact (other (mem_tokens_of_mem_statementTokens hmem (by rw [hk]; decide)) hstart hk (by decide)).elim
  · obtain ⟨d, hd, rfl⟩ := List.mem_map.1 ha
    obtain ⟨t, ht, hstart, hk, hfunc⟩ := exists_keyword_of_decl htree hd
    by_cases hword : t.kind = .funcWord
    · obtain ⟨⟨n, receiver, body⟩, hkind⟩ := hfunc hword
      cases receiver with
      | none => exact ⟨d, hd, n, body, hkind, rfl⟩
      | some r => exact (not_headAt_method htree hd hkind hhead).elim
    · refine (other ht hstart rfl ?_).elim
      revert hk hword
      cases t.kind <;> decide

/-! ### Where heads stand -/

/-- **Every head stands inside of a part of the file**, or begins it. -/
lemma exists_span_of_headAt (htree : parse s = .ok tree) (hhead : HeadAt name s k) :
    ∃ a ∈ tree.package.span :: tree.parts.map (·.span), a.start ≤ k ∧ k < a.stop := by
  obtain ⟨u, v, rest, hcode, rfl, -, hhead⟩ := hhead
  obtain ⟨v, rfl⟩ := List.head?_eq_some_iff.1 hhead.head?
  -- the keyword begins in a token
  obtain ⟨xs, l, ys, p, q, hlex, hcomment, htext, rfl, -⟩ :=
    exists_lexeme_of_codeOf (by decide) (by decide) (commentsBlanked_eq ▸ hcode)
  have hl : l ∈ lex s := by rw [hlex]; simp
  have hsignificant : l.kind.isSignificant := by
    by_contra hnot
    have hspace := all_isSpace_code hl (by simpa using hnot)
    rw [Lexeme.code, hcomment, if_neg Bool.false_ne_true, htext, List.all_append, List.all_cons] at hspace
    have : isSpace 'f' = false := by decide
    simp [this] at hspace
  have hsemi : l.kind ≠ .semi := by
    intro hk
    have := text_of_semi hl hk
    rw [htext, List.append_eq_singleton_iff] at this
    simp at this
  let t : Token := ⟨l.kind, l.text, (joined xs).width⟩
  have ht : t ∈ tokens s := mem_tokens.2 ⟨xs, ys, hlex, rfl⟩
  have honce := (exists_tiles htree).countP_isWithin areOrdered_statementTokens
    ((mem_statementTokens hsemi).2 ⟨ht, hsignificant⟩) hsemi (start_lt_stop ht)
  obtain ⟨a, ha, hwithin⟩ := List.countP_pos_iff.1 (honce ▸ Nat.one_pos)
  simp only [Token.isWithin, Bool.and_eq_true, decide_eq_true_eq] at hwithin
  have hstart : t.start = (joined xs).width := rfl
  have hstop : t.stop = (joined xs).width + (Text.width p + (Text.width ['f'] + Text.width q)) := by
    rw [Token.stop, hstart, show t.text = p ++ (['f'] ++ q) from htext, Text.width_append, Text.width_append]
  have hf : Text.width ['f'] = 1 := rfl
  refine ⟨a, ha, ?_, ?_⟩ <;> rw [Text.width_append, width_codeOf] <;> omega

/-- **Which functions are found** in a file that is read: those whose declarations begin lines and whose names, the white space
around them apart, are words that begin with an ASCII letter or an underscore, and the heads further inside of a span. -/
theorem functions_found_iff (htree : parse s = .ok tree) : name ∈ Detection.functions s ↔
    (∃ d ∈ tree.decls, ∃ n body, d.kind = .function ⟨n, none, body⟩ ∧ d.BeginsLine s ∧ Text.trim n = name ∧ IsFoundName name) ∨
    ∃ a ∈ tree.package.span :: tree.parts.map (·.span), ∃ k, a.start < k ∧ k < a.stop ∧ HeadAt name s k := by
  rw [Detection.mem_functions_iff, hasFunctionHead_iff]
  constructor
  · rintro ⟨k, hhead⟩
    obtain ⟨a, ha, hle, hlt⟩ := exists_span_of_headAt htree hhead
    rcases Nat.eq_or_lt_of_le hle with rfl | hinside
    · obtain ⟨d, hd, n, body, hkind, rfl⟩ := exists_decl_of_headAt htree ha hhead
      exact .inl ⟨d, hd, n, body, hkind, (headAt_function_iff htree hd hkind).1 hhead⟩
    · exact .inr ⟨a, ha, k, hinside, hlt, hhead⟩
  · rintro (⟨d, hd, n, body, hkind, hfound⟩ | ⟨-, -, k, -, -, hhead⟩)
    · exact ⟨d.span.start, (headAt_function_iff htree hd hkind).2 hfound⟩
    · exact ⟨k, hhead⟩

/-- A head in a raw string, and a function with a comment in front of it on its line. -/
def usageFile : Text :=
  ("package types\n\nconst usage = `\nfunc validateMobile(fl validator.FieldLevel) bool \x7b\n`\n\n" : Text) ++
    "/* ID cards */ func validateIdCard(fl validator.FieldLevel) bool \x7b\n\treturn true\n\x7d\n"

def usageTree : Tree where
  package := ⟨"types", ⟨0, 13⟩⟩
  imports := []
  decls := [⟨.consts ["usage"], ⟨15, 84⟩, 15⟩, ⟨.function ⟨"validateIdCard", none, some ⟨151, 167⟩⟩, ⟨101, 167⟩, 86⟩]

/-- The head in the raw string is found, and the function is not. -/
theorem raw_string_is_found : parse usageFile = .ok usageTree ∧ usageTree.functions.map Function.name = ["validateIdCard"] ∧
    "validateMobile".toList ∈ Detection.functions usageFile ∧ "validateIdCard".toList ∉ Detection.functions usageFile := by
  have hparse : parse usageFile = .ok usageTree := by
    apply ok_of_toOption
    unfold usageFile
    repeat rw [String.toList_ofList]
    decide +kernel
  have hcode : commentsBlanked usageFile = usageFile.take 31 ++ ("func".toList ++ (" ".toList ++ ("validateMobile".toList ++ ([] ++
      '(' :: (commentsBlanked usageFile).drop 51)))) := by
    unfold usageFile
    repeat rw [String.toList_ofList]
    decide +kernel
  have hfresh : Text.width (usageFile.take 31) = 31 ∧ Detection.freshBehind true (usageFile.take 31) := by
    unfold usageFile
    repeat rw [String.toList_ofList]
    decide +kernel
  have hhead : HeadAt "validateMobile" usageFile 31 := ⟨_, _, _, hcode, hfresh.1, hfresh.2, " ".toList, [], '(', by decide, by decide,
    ⟨'v', "alidateMobile".toList, rfl, by decide, by decide⟩, by decide, .inl rfl, rfl⟩
  refine ⟨hparse, by decide, (functions_found_iff hparse).2 (.inr ⟨⟨15, 84⟩, by decide, 31, by decide, by decide, hhead⟩), ?_⟩
  unfold usageFile
  repeat rw [String.toList_ofList]
  decide +kernel

end RuleWeaver
