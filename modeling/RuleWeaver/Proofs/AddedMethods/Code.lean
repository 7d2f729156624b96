import RuleWeaver.Methods
import RuleWeaver.Proofs.Document.Edits
import RuleWeaver.Proofs.Source.Headed
import RuleWeaver.Proofs.Source.WrittenForms

/-!
# The code of added methods

What goes into a types file: `Validate` methods at its end (`isSection_appendix`), and the declaration of the validator behind
its imports (`lex_validatorText_append`).
-/

namespace RuleWeaver

open Source Text

variable {type t y : Text} {types : List Text} {name : Option Text} {ts rest A : List Token} {semi : Token} {l : Lexeme} {c : Cursor}
  {L P Q : List Lexeme} {ks : List DeclKind} {ds : List Decl}

/-! ### Methods -/

/-- The shape of a `Validate` method. -/
def methodShape (type : Text) : DeclKind := .function ⟨"Validate", some ⟨type, true⟩, none⟩

/-- The code of a `Validate` method. -/
def methodCode (type : Text) : List Lexeme :=
  [⟨.funcWord, "func"⟩, ⟨.lparen, ['(']⟩, ⟨.ident, "r"⟩, ⟨.star, ['*']⟩, ⟨.ident, type⟩, ⟨.rparen, [')']⟩, ⟨.ident, "Validate"⟩,
    ⟨.lparen, ['(']⟩, ⟨.rparen, [')']⟩, ⟨.ident, "error"⟩, ⟨.lbrace, ['\x7b']⟩, ⟨.flowWord, "return"⟩, ⟨.ident, "validate"⟩,
    ⟨.dot, ['.']⟩, ⟨.ident, "Struct"⟩, ⟨.lparen, ['(']⟩, ⟨.ident, "r"⟩, ⟨.rparen, [')']⟩, .impliedSemi, ⟨.rbrace, ['\x7d']⟩]

lemma lex_validateMethod (h : IsName type) : lex (Snippet.validateMethod type) =
    [⟨.funcWord, "func"⟩, ⟨.blank, [' ']⟩, ⟨.lparen, ['(']⟩, ⟨.ident, "r"⟩, ⟨.blank, [' ']⟩, ⟨.star, ['*']⟩, ⟨.ident, type⟩,
      ⟨.rparen, [')']⟩, ⟨.blank, [' ']⟩, ⟨.ident, "Validate"⟩, ⟨.lparen, ['(']⟩, ⟨.rparen, [')']⟩, ⟨.blank, [' ']⟩, ⟨.ident, "error"⟩,
      ⟨.blank, [' ']⟩, ⟨.lbrace, ['\x7b']⟩, ⟨.newline, ['\n']⟩, ⟨.blank, ['\t']⟩, ⟨.flowWord, "return"⟩, ⟨.blank, [' ']⟩,
      ⟨.ident, "validate"⟩, ⟨.dot, ['.']⟩, ⟨.ident, "Struct"⟩, ⟨.lparen, ['(']⟩, ⟨.ident, "r"⟩, ⟨.rparen, [')']⟩, ⟨.newline, ['\n']⟩,
      ⟨.rbrace, ['\x7d']⟩, ⟨.newline, ['\n']⟩] := by
  have hhead : lex "func (r *" = [⟨.funcWord, "func"⟩, ⟨.blank, [' ']⟩, ⟨.lparen, ['(']⟩, ⟨.ident, "r"⟩, ⟨.blank, [' ']⟩,
      ⟨.star, ['*']⟩] := by decide +kernel
  have htail : lex ") Validate() error \x7b\n\treturn validate.Struct(r)\n\x7d\n" = [⟨.rparen, [')']⟩, ⟨.blank, [' ']⟩,
      ⟨.ident, "Validate"⟩, ⟨.lparen, ['(']⟩, ⟨.rparen, [')']⟩, ⟨.blank, [' ']⟩, ⟨.ident, "error"⟩, ⟨.blank, [' ']⟩,
      ⟨.lbrace, ['\x7b']⟩, ⟨.newline, ['\n']⟩, ⟨.blank, ['\t']⟩, ⟨.flowWord, "return"⟩, ⟨.blank, [' ']⟩, ⟨.ident, "validate"⟩,
      ⟨.dot, ['.']⟩, ⟨.ident, "Struct"⟩, ⟨.lparen, ['(']⟩, ⟨.ident, "r"⟩, ⟨.rparen, [')']⟩, ⟨.newline, ['\n']⟩, ⟨.rbrace, ['\x7d']⟩,
      ⟨.newline, ['\n']⟩] := by decide +kernel
  have hsplit : ") Validate() error \x7b\n\treturn validate.Struct(r)\n\x7d\n".toList =
      ')' :: " Validate() error \x7b\n\treturn validate.Struct(r)\n\x7d\n".toList := by
    repeat rw [String.toList_ofList]
  have hall := h.all_isPathChar
  obtain ⟨c, u, rfl, -⟩ := IsImportName.exists_cons ⟨.ident, .inl rfl, h⟩
  have hc : isOperatorChar c = false := by
    rw [List.all_cons, Bool.and_eq_true] at hall
    unfold isOperatorChar
    split <;> first | rfl | exact absurd hall.1 (by decide)
  have hlast : ∀ z : Text, ([⟨.funcWord, "func"⟩, ⟨.blank, [' ']⟩, ⟨.lparen, ['(']⟩, ⟨.ident, "r"⟩, ⟨.blank, [' ']⟩,
      ⟨.star, ['*']⟩] : List Lexeme).getLast?.all (·.precedes (c :: u ++ z)) := by
    intro z
    simp [Lexeme.precedes, Lexeme.separates, hc]
  unfold Snippet.validateMethod
  rw [List.append_assoc, lex_append_of_eq hhead (by rfl) (hlast _), hsplit, lex_path_append hall (by decide) (by decide), ← hsplit, htail, h]
  rfl

/-- A `Validate` method is a section. -/
lemma isSection_validateMethod (h : IsName type) : IsSection (Snippet.validateMethod type) [methodShape type] := by
  obtain ⟨b, d, hread, hd⟩ : ∃ b d, (Cursor.mk 0 (unplaced (methodCode type) ++ [.impliedSemi 0])).declKind =
      .ok (.function ⟨"Validate", some ⟨type, true⟩, b⟩, d) ∧ d.ahead = [.impliedSemi 0] :=
    ⟨_, _, declKind_of_method ⟨.funcWord, "func", 0⟩ ⟨.lparen, ['('], 0⟩ ⟨.ident, "r", 0⟩ ⟨.star, ['*'], 0⟩ ⟨.ident, type, 0⟩
      ⟨.rparen, [')'], 0⟩ ⟨.ident, "Validate", 0⟩ [] (unplaced [⟨.flowWord, "return"⟩, ⟨.ident, "validate"⟩, ⟨.dot, ['.']⟩,
        ⟨.ident, "Struct"⟩, ⟨.lparen, ['(']⟩, ⟨.ident, "r"⟩, ⟨.rparen, [')']⟩, .impliedSemi])
      rfl rfl rfl rfl rfl rfl rfl rfl rfl rfl rfl rfl, rfl⟩
  have hlex := lex_validateMethod h
  have hpart : statementPart false (lex (Snippet.validateMethod type)) =
      (unplaced (methodCode type)).map Token.lexeme ++ [.impliedSemi] := by
    rw [hlex, map_lexeme_unplaced]
    rfl
  exact isSection_of_declKind (by rw [isWhole, hlex]; rfl) (by rw [hlex]; rfl) (by rw [hlex]; rfl) hpart rfl rfl rfl hread hd

/-- **The methods at the end of a file are sections**, from a new line on. -/
theorem isSection_appendix (h : Appendix (types.map Snippet.validateMethod) t) (htypes : ∀ type ∈ types, IsName type) :
    IsSection t (types.map methodShape) := by
  obtain ⟨lead, hlead, rfl⟩ := h
  have hmethods : IsSection ((types.map Snippet.validateMethod).flatMap ('\n' :: ·)) (types.map methodShape) := by
    rw [List.flatMap_map]
    exact .flatMap fun type htype => IsSection.newline.append (isSection_validateMethod (htypes type htype))
  rcases hlead with rfl | ⟨rfl, -⟩
  · exact hmethods
  · exact IsSection.newline.append hmethods

lemma Appendix.exists_newline {fs : List Text} (h : Appendix fs t) : fs = [] ∧ t = [] ∨ fs ≠ [] ∧ ∃ u, t = '\n' :: u := by
  obtain ⟨lead, hlead, rfl⟩ := h
  rcases fs with _ | ⟨f, fs⟩
  · rcases hlead with rfl | ⟨-, hne⟩
    · exact .inl ⟨rfl, rfl⟩
    · exact absurd rfl hne
  · refine .inr ⟨List.cons_ne_nil _ _, ?_⟩
    rcases hlead with rfl | ⟨rfl, -⟩ <;> exact ⟨_, rfl⟩

/-- The code of the methods at the end of a file. -/
lemma statementPart_appendix (h : Appendix (types.map Snippet.validateMethod) t) (htypes : ∀ type ∈ types, IsName type) :
    statementPart false (lex t) = types.flatMap fun type => methodCode type ++ [.impliedSemi] := by
  obtain ⟨lead, hlead, rfl⟩ := h
  have hmethods : statementPart false (lex ((types.map Snippet.validateMethod).flatMap ('\n' :: ·))) =
      types.flatMap fun type => methodCode type ++ [.impliedSemi] := by
    clear hlead
    induction types with
    | nil => simp [statementPart]
    | cons type types ih =>
      have hsection := isSection_validateMethod (htypes type List.mem_cons_self)
      have ih := ih fun u hu => htypes u (List.mem_cons_of_mem _ hu)
      have hnewline : ∀ L, statementPart false (⟨.newline, ['\n']⟩ :: L) = statementPart false L := fun _ => rfl
      rw [List.map_cons, List.flatMap_cons, List.cons_append, lex_newline, hnewline, hsection.closed, statementPart_append,
        hsection.ended, ih, List.flatMap_cons, lex_validateMethod (htypes type List.mem_cons_self)]
      rfl
  rcases hlead with rfl | ⟨rfl, -⟩
  · exact hmethods
  · rw [List.singleton_append, lex_newline, ← hmethods]
    rfl

lemma countP_methodCode : (types.flatMap fun type => methodCode type ++ [.impliedSemi]).countP Lexeme.opensDecl = types.length := by
  induction types with
  | nil => rfl
  | cons type types ih =>
    have hone : (methodCode type ++ [Lexeme.impliedSemi]).countP Lexeme.opensDecl = 1 := rfl
    rw [List.flatMap_cons, List.countP_append, ih, hone, List.length_cons, Nat.add_comm]

/-! ### The validator -/

/-- What the declaration of the validator calls, by the name under which the engine is imported. -/
def validatorCall : Option Text → Text
  | none => "validator.New()"
  | some name => if name = "." then "New()" else name ++ ".New()"

/-- The code of the call. -/
def callCode : Option Text → List Lexeme
  | none => [⟨.ident, "validator"⟩, ⟨.dot, ['.']⟩, ⟨.ident, "New"⟩, ⟨.lparen, ['(']⟩, ⟨.rparen, [')']⟩]
  | some name => (if name = "." then [] else [⟨.ident, name⟩, ⟨.dot, ['.']⟩]) ++
    [⟨.ident, "New"⟩, ⟨.lparen, ['(']⟩, ⟨.rparen, [')']⟩]

lemma validatorCall_none : validatorCall none = "validator.New()" := rfl

lemma validatorCall_dot {n : Text} (h : n = ".") : validatorCall (some n) = "New()" := if_pos h

lemma validatorCall_name {n : Text} (h : n ≠ ".") : validatorCall (some n) = n ++ ".New()" := if_neg h

lemma callCode_dot {n : Text} (h : n = ".") : callCode (some n) = [⟨.ident, "New"⟩, ⟨.lparen, ['(']⟩, ⟨.rparen, [')']⟩] :=
  congrArg (· ++ _) (if_pos h)

lemma callCode_name {n : Text} (h : n ≠ ".") :
    callCode (some n) = [⟨.ident, n⟩, ⟨.dot, ['.']⟩, ⟨.ident, "New"⟩, ⟨.lparen, ['(']⟩, ⟨.rparen, [')']⟩] :=
  congrArg (· ++ _) (if_neg h)

namespace Source

lemma munch_of_dot {c : Char} {u : Text} (hc : isPathChar c) (h : (munch c u).1 = .dot) : c = '.' ∧ (munch c u).2 = 0 := by
  have hb := not_isBlank_of_isPathChar hc
  by_cases hs : isNameStart c
  · simp only [munch, hb, hs, Bool.false_eq_true, if_false, if_true] at h
    revert h
    fun_cases wordKind (c :: u.take (Text.run isNameChar u)) <;> exact fun h => by cases h
  by_cases hd : c.isDigit
  · simp [munch, hb, hs, hd] at h
  have hdot : c = '.' := by simpa [isPathChar, isNameChar, hs, hd] using hc
  subst hdot
  have hmunch : munch '.' u = if ['.', '.'].isPrefixOf u then (Kind.ellipsis, 2) else (Kind.dot, 0) := rfl
  rw [hmunch] at h ⊢
  split at h
  · cases h
  · next hp => exact ⟨rfl, by rw [if_neg hp]⟩

lemma IsImportName.eq_dot_or_isName {n : Text} (h : IsImportName n) : n = ['.'] ∨ IsName n := by
  have hall := h.all_isPathChar
  obtain ⟨k, rfl | rfl, hn⟩ := h
  · exact .inr hn
  · obtain ⟨c, u, y, hcu, hm, ht, -⟩ := lex_cons_inv hn
    rw [hcu, List.all_cons, Bool.and_eq_true] at hall
    have hdot := munch_of_dot (c := c) (u := u ++ y) hall.1 (by rw [hm])
    rw [hm] at hdot
    rw [show u = [] from List.length_eq_zero_iff.1 hdot.2, hdot.1] at ht
    exact .inl ht

end Source

/-- What the declaration calls is a call, whatever follows it. -/
lemma lex_call_append (h : ∀ n ∈ name, IsImportName n) : lex (validatorCall name ++ y) = callCode name ++ lex y := by
  have hnew : lex "New()" = [⟨.ident, "New"⟩, ⟨.lparen, ['(']⟩, ⟨.rparen, [')']⟩] := by decide +kernel
  have hqualified : lex ".New()" = [⟨.dot, ['.']⟩, ⟨.ident, "New"⟩, ⟨.lparen, ['(']⟩, ⟨.rparen, [')']⟩] := by decide +kernel
  rcases name with _ | n
  · have hcall : lex "validator.New()" = callCode none := by decide +kernel
    rw [validatorCall_none]
    exact lex_append_of_eq hcall (by rfl) (by rfl)
  by_cases hdot : n = "."
  · rw [validatorCall_dot hdot, callCode_dot hdot]
    exact lex_append_of_eq hnew (by rfl) (by rfl)
  · have hname : IsName n := (h n rfl).eq_dot_or_isName.resolve_left hdot
    have hsplit : ".New()".toList = '.' :: "New()".toList := by
      repeat rw [String.toList_ofList]
    have hlast : ([⟨.ident, n⟩] : List Lexeme).getLast?.all (·.precedes (".New()".toList ++ y)) := by
      rw [hsplit]
      rfl
    rw [validatorCall_name hdot, callCode_name hdot, List.append_assoc, lex_append_of_eq hname (by rfl) hlast,
      lex_append_of_eq hqualified (by rfl) (by rfl)]
    rfl

lemma validatorCall_cons (h : ∀ n ∈ name, IsImportName n) : ∃ c u, validatorCall name = c :: u ∧ isBlank c = false := by
  rcases name with _ | n
  · refine ⟨'v', "alidator.New()", ?_, rfl⟩
    rw [validatorCall_none]
    repeat rw [String.toList_ofList]
  by_cases hdot : n = "."
  · refine ⟨'N', "ew()", ?_, rfl⟩
    rw [validatorCall_dot hdot]
    repeat rw [String.toList_ofList]
  · obtain ⟨c, u, rfl, hc⟩ := (h n rfl).exists_cons
    exact ⟨c, u ++ ".New()", validatorCall_name hdot, hc⟩

/-- The text that declares the validator. -/
def validatorText (name : Option Text) : Text := "var validate = " ++ validatorCall name

lemma validatorText_dot {n : Text} (h : n = ".") : validatorText (some n) = "var validate = New()" := by
  unfold validatorText
  rewrite [validatorCall_dot h]
  repeat rewrite [String.toList_ofList]
  rfl

lemma validatorText_name {n : Text} (h : n ≠ ".") : validatorText (some n) = "var validate = " ++ n ++ ".New()" := by
  unfold validatorText
  rewrite [validatorCall_name h]
  exact (List.append_assoc _ _ _).symm

/-- The lexemes of that text. -/
def validatorLexemes (name : Option Text) : List Lexeme :=
  [⟨.varWord, "var"⟩, ⟨.blank, [' ']⟩, ⟨.ident, "validate"⟩, ⟨.blank, [' ']⟩, ⟨.assign, ['=']⟩, ⟨.blank, [' ']⟩] ++ callCode name

/-- The code of that text. -/
def validatorCode (name : Option Text) : List Lexeme :=
  [⟨.varWord, "var"⟩, ⟨.ident, "validate"⟩, ⟨.assign, ['=']⟩] ++ callCode name

lemma lex_validatorText_append (h : ∀ n ∈ name, IsImportName n) :
    lex (validatorText name ++ y) = validatorLexemes name ++ lex y := by
  have hhead : lex "var validate = " = [⟨.varWord, "var"⟩, ⟨.blank, [' ']⟩, ⟨.ident, "validate"⟩, ⟨.blank, [' ']⟩, ⟨.assign, ['=']⟩,
      ⟨.blank, [' ']⟩] := by decide +kernel
  have hlast : ([⟨.varWord, "var"⟩, ⟨.blank, [' ']⟩, ⟨.ident, "validate"⟩, ⟨.blank, [' ']⟩, ⟨.assign, ['=']⟩,
      ⟨.blank, [' ']⟩] : List Lexeme).getLast?.all (·.precedes (validatorCall name ++ y)) := by
    obtain ⟨c, u, hcall, hc⟩ := validatorCall_cons h
    rw [hcall]
    simp [Lexeme.precedes, Lexeme.separates, hc]
  unfold validatorText
  rw [List.append_assoc, lex_append_of_eq hhead (by rfl) hlast, lex_call_append h, validatorLexemes, List.append_assoc]

/-- What is read of the declaration. -/
lemma statementPart_validatorLexemes (name : Option Text) : statementPart false (validatorLexemes name) = validatorCode name ∧
    endingBehind false (validatorLexemes name) = true := by
  rcases name with _ | n
  · exact ⟨rfl, rfl⟩
  · by_cases hdot : n = "."
    · rw [validatorLexemes, validatorCode, callCode_dot hdot]
      exact ⟨rfl, rfl⟩
    · rw [validatorLexemes, validatorCode, callCode_name hdot]
      exact ⟨rfl, rfl⟩

/-- The declaration has no faults, and no open brackets. -/
lemma isBalanced_validatorLexemes (name : Option Text) : isBalanced [] (validatorLexemes name) ∧ (validatorLexemes name).all Lexeme.isSound := by
  rcases name with _ | n
  · exact ⟨rfl, rfl⟩
  · by_cases hdot : n = "."
    · rw [validatorLexemes, callCode_dot hdot]
      exact ⟨rfl, rfl⟩
    · rw [validatorLexemes, callCode_name hdot]
      exact ⟨rfl, rfl⟩

/-! ### Reading the declaration of the validator -/

lemma exists_callee (name : Option Text) : ∃ f, callCode name = f ++ [⟨.lparen, ['(']⟩, ⟨.rparen, [')']⟩] ∧ ∀ l ∈ f, l.kind.isPassed := by
  have hpassed : Kind.ident.isPassed ∧ Kind.dot.isPassed := ⟨rfl, rfl⟩
  rcases name with _ | n
  · exact ⟨[⟨.ident, "validator"⟩, ⟨.dot, ['.']⟩, ⟨.ident, "New"⟩], rfl, by decide⟩
  by_cases hdot : n = "."
  · exact ⟨[⟨.ident, "New"⟩], callCode_dot hdot, by decide⟩
  · exact ⟨[⟨.ident, n⟩, ⟨.dot, ['.']⟩, ⟨.ident, "New"⟩], callCode_name hdot, by simp [hpassed]⟩

/-- The declaration of the validator is read up to the parenthesis at its end. -/
lemma declKind_of_validator (hc : c.ahead = ts ++ semi :: rest) (hts : ts.map Token.lexeme = validatorCode name)
    (hsemi : semi.kind = .semi) : ∃ word mid close, ts = word :: (mid ++ [close]) ∧ word.kind = .varWord ∧ close.kind = .rparen ∧
      c.declKind = .ok (.vars ["validate"], ⟨close.stop, semi :: rest⟩) := by
  obtain ⟨f, hf, hpassed⟩ := exists_callee name
  rw [validatorCode, hf, ← List.append_assoc] at hts
  obtain ⟨us, vs, rfl, hus, hvs⟩ := List.map_eq_append_iff.1 hts
  obtain ⟨us, gs, rfl, hus, hgs⟩ := List.map_eq_append_iff.1 hus
  obtain ⟨word, us, rfl, hword, hus⟩ := List.map_eq_cons_iff.1 hus
  obtain ⟨vname, us, rfl, hname, hus⟩ := List.map_eq_cons_iff.1 hus
  obtain ⟨assign, hassigns, hassign⟩ := List.map_eq_singleton_iff.1 hus
  obtain ⟨o, vs, rfl, ho, hvs⟩ := List.map_eq_cons_iff.1 hvs
  obtain ⟨close, hcloses, hclose⟩ := List.map_eq_singleton_iff.1 hvs
  subst hassigns hcloses
  have hgs : ∀ t ∈ gs, t.kind.isPassed := by
    intro t ht
    exact hpassed t.lexeme (by rw [← hgs]; exact List.mem_map_of_mem ht)
  have hvalue : (Cursor.mk assign.stop (gs ++ o :: close :: semi :: rest)).skipStatement = .ok ⟨close.stop, semi :: rest⟩ :=
    skipStatement_of_call gs hgs (congrArg Lexeme.kind ho) (congrArg Lexeme.kind hclose) hsemi
  have hread := declKind_of_value (b := c.behind) word assign (gs ++ o :: close :: semi :: rest) (congrArg Lexeme.kind hword)
    (congrArg Lexeme.kind hname) (congrArg Lexeme.kind hassign) hvalue
  have hcursor : c = ⟨c.behind, word :: vname :: assign :: (gs ++ o :: close :: semi :: rest)⟩ := by
    rw [← show c.ahead = word :: vname :: assign :: (gs ++ o :: close :: semi :: rest) by rw [hc]; simp]
  refine ⟨word, vname :: assign :: (gs ++ [o]), close, by simp, congrArg Lexeme.kind hword, congrArg Lexeme.kind hclose, ?_⟩
  rw [hcursor, hread, show vname.text = "validate".toList from congrArg Lexeme.text hname]

/-- The declaration of the validator may stand in front of declarations. -/
lemma readsAs_validator (h : ReadsAs L ks) (hl : l.kind = .semi) : ReadsAs (validatorCode name ++ l :: L) (.vars ["validate"] :: ks) := by
  obtain ⟨_, _, _, -, -, -, hread⟩ := declKind_of_validator (c := ⟨0, unplaced (validatorCode name) ++ [.impliedSemi 0]⟩) rfl
    map_lexeme_unplaced rfl
  have hcode : (unplaced (validatorCode name)).map Token.lexeme = validatorCode name := map_lexeme_unplaced
  rw [← hcode]
  exact .cons_decl hread rfl rfl rfl hl h

/-- Where the declaration of the validator is read. -/
lemma exists_span_of_validator (hc : c.ahead = ts ++ semi :: rest) (hts : ts.map Token.lexeme = validatorCode name)
    (hsemi : semi.kind = .semi) (h : c.decls = .ok ds) : ∃ word mid close x, ts = word :: (mid ++ [close]) ∧ word.kind = .varWord ∧
      close.kind = .rparen ∧ ds.head? = some x ∧ x.span = ⟨word.start, close.stop⟩ := by
  obtain ⟨word, mid, close, rfl, hword, hclose, hread⟩ := declKind_of_validator hc hts hsemi
  have hpast : c.pastSemis = c := pastSemis_eq_self (hc.trans (List.cons_append ..)) (by rw [hword]; decide)
  have hkind : c.kind? = some .varWord := by
    rw [Cursor.kind?, hc, ← hword]
    rfl
  have hdecl : c.decl = .ok (⟨.vars ["validate"], ⟨c.start, close.stop⟩, c.start⟩, ⟨semi.stop, rest⟩) :=
    Cursor.decl_eq_ok_iff.2 ⟨_, _, hread, Cursor.endDeclaration_of_semi rfl hsemi, rfl⟩
  rw [decls_of_decl (by rw [hpast, hkind]; simp) (by rw [hpast]; exact hdecl)] at h
  obtain ⟨es, hrest, rfl⟩ := exists_of_map_eq_ok h
  refine ⟨word, mid, close, _, rfl, hword, hclose, rfl, ?_⟩
  rw [Cursor.start, hc]
  rfl

/-- The text of the declaration has those lexemes. -/
lemma joined_validatorLexemes (h : ∀ n ∈ name, IsImportName n) : joined (validatorLexemes name) = validatorText name := by
  have hlex := lex_validatorText_append (y := []) h
  rw [List.append_nil, lex_nil, List.append_nil] at hlex
  rw [← hlex, joined_lex]

/-- **The first declaration spans the text that declares the validator**, where that stands behind the tokens in front of it. -/
lemma slice_of_validator (hname : ∀ n ∈ name, IsImportName n) (hlex : lex t = P ++ (validatorLexemes name ++ Q))
    (hend : endingBehind false P = false) (htokens : statementTokens t = A ++ c.ahead) (hA : A.length = (statementPart false P).length)
    (hc : c.ahead.map Token.lexeme = validatorCode name ++ l :: L) (hl : l.kind = .semi) (hds : c.decls = .ok ds) :
    ∃ x, ds.head? = some x ∧ slice t x.span.start x.span.stop = validatorText name := by
  obtain ⟨ts, us, hahead, hts, hus⟩ := List.map_eq_append_iff.1 hc
  obtain ⟨semi, us, rfl, hsemi, -⟩ := List.map_eq_cons_iff.1 hus
  obtain ⟨word, mid, close, x, rfl, hword, hclose, hx, hspan⟩ :=
    exists_span_of_validator hahead hts ((congrArg Lexeme.kind hsemi).trans hl) hds
  refine ⟨x, hx, ?_⟩
  -- where the keyword stands
  have hstart : word.start = (joined P).width := by
    have hfront : statementTokens t = A ++ word :: (mid ++ close :: semi :: us) := by
      rw [htokens, hahead]
      simp
    exact (start_of_statementTokens hfront (by rw [hword]; decide) hlex rfl hA).1
  -- where the last parenthesis stands
  obtain ⟨f, hf, -⟩ := exists_callee name
  obtain ⟨V, hV⟩ : ∃ V, validatorLexemes name = V ++ [⟨.rparen, [')']⟩] := by
    have hcall : callCode name = (f ++ [⟨.lparen, ['(']⟩]) ++ [⟨.rparen, [')']⟩] := by rw [hf, List.append_assoc]; rfl
    rw [validatorLexemes, hcall, ← List.append_assoc]
    exact ⟨_, rfl⟩
  have hpart := (statementPart_validatorLexemes name).1
  rw [hV, statementPart_append, statementPart_cons_of_isSignificant rfl] at hpart
  have hlength := congrArg List.length (hts.trans hpart.symm)
  have hfront : statementTokens t = (A ++ word :: mid) ++ close :: semi :: us := by
    rw [htokens, hahead]
    simp
  have hrparen : close.start = (joined (P ++ V)).width ∧ close.lexeme = ⟨.rparen, [')']⟩ := by
    refine start_of_statementTokens hfront (by rw [hclose]; decide) (show lex t = (P ++ V) ++ ⟨.rparen, [')']⟩ :: Q by rw [hlex, hV]; simp) rfl ?_
    rw [statementPart_append, hend, List.length_append, List.length_append, hA]
    simp only [statementPart, List.map_cons, List.map_append, List.length_cons, List.length_append, List.length_map,
      List.length_nil] at hlength ⊢
    omega
  have hstop : close.stop = (joined P).width + (validatorText name).width := by
    rw [Token.stop, hrparen.1, ← joined_validatorLexemes hname, hV, show close.text = [')'] from congrArg Lexeme.text hrparen.2]
    simp only [joined_append, width_append, joined_cons, joined_nil, List.append_nil]
    omega
  have ht : t = joined P ++ (validatorText name ++ joined Q) := by
    rw [← joined_lex (s := t), hlex, joined_append, joined_append, joined_validatorLexemes hname]
  rw [hspan, hstart, hstop]
  conv_lhs => rw [ht]
  exact slice_width_append

end RuleWeaver
