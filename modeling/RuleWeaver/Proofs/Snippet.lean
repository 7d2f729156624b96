import RuleWeaver.Proofs.Detection.Functions
import RuleWeaver.Proofs.Source.Names
import RuleWeaver.Snippet

/-!
# The functions that are written

Every function that goes into a registry is found there under its name (`declares_stub`, `declares_known`).
-/

namespace RuleWeaver.Snippet

open Source (Lexeme lex isWhole isPathChar codeOf commentsBlanked)
open Detection (Declares)

variable {tag name y text : Text}

/-- Whether a text is the name of a function of the package itself. -/
def isLocalName : Text → Bool
  | [] => false
  | c :: s => (c.isAlpha || c = '_') && s.all Unicode.isWord

lemma all_isPathChar_of_isLocalName (h : isLocalName name) : name.all isPathChar := by
  rcases name with _ | ⟨c, s⟩
  · cases h
  · rw [isLocalName, Bool.and_eq_true] at h
    have hword : ∀ d, Unicode.isWord d → isPathChar d := by
      intro d hd
      rw [isPathChar, Source.isNameChar_of_isWord hd, Bool.true_or]
    rw [List.all_cons, Bool.and_eq_true]
    exact ⟨hword c (Detection.isWord_of_start h.1), List.all_eq_true.2 fun d hd => hword d (List.all_eq_true.1 h.2 d hd)⟩

/-! ### Functions to be filled in -/

/-- The comment above a function to be filled in. -/
def stubComment (tag name : Text) : Text := " " ++ name ++ " implements the \"" ++ tag ++ "\" validation tag."

/-- The comment inside a function to be filled in. -/
def stubNote (tag : Text) : Text := " Implement the " ++ tag ++ " rule here."

/-- The lexemes of a function to be filled in. -/
def stubLexemes (tag name : Text) : List Lexeme :=
  [⟨.lineComment, '/' :: '/' :: stubComment tag name⟩, ⟨.newline, ['\n']⟩] ++ (lex "func " ++ (lex name ++
    (lex "(fl validator.FieldLevel) bool \x7b\n\t" ++ (⟨.lineComment, '/' :: '/' :: stubNote tag⟩ ::
      lex "\n\treturn true\n\x7d\n"))))

lemma stub_eq :
    stub tag name = '/' :: '/' :: (stubComment tag name ++ '\n' :: ("func ".toList ++ (name ++
      ("(fl validator.FieldLevel) bool \x7b\n\t".toList ++ ('/' :: '/' :: (stubNote tag ++
        "\n\treturn true\n\x7d\n".toList)))))) := by
  have hlead : "// ".toList = '/' :: '/' :: " ".toList := rfl
  have htag : "\" validation tag.\n".toList = "\" validation tag.".toList ++ ['\n'] := by
    repeat rw [String.toList_ofList]
    rfl
  have hhead : ∀ z : Text, "(fl validator.FieldLevel) bool \x7b\n".toList ++ ("\t// Implement the ".toList ++ z) =
      "(fl validator.FieldLevel) bool \x7b\n\t".toList ++ '/' :: '/' :: (" Implement the ".toList ++ z) := by
    have h₁ : "(fl validator.FieldLevel) bool \x7b\n\t".toList = "(fl validator.FieldLevel) bool \x7b\n".toList ++ ['\t'] := by
      repeat rw [String.toList_ofList]
      rfl
    have h₂ : "\t// Implement the ".toList = '\t' :: '/' :: '/' :: " Implement the ".toList := by
      repeat rw [String.toList_ofList]
    intro z
    rw [h₁, h₂, List.append_assoc]
    rfl
  have htail : " rule here.\n".toList ++ ("\treturn true\n".toList ++ "\x7d\n".toList) =
      " rule here.".toList ++ "\n\treturn true\n\x7d\n".toList := by
    repeat rw [String.toList_ofList]
    rfl
  unfold stub stubComment stubNote
  simp only [List.append_assoc, hlead, htag, List.cons_append, List.nil_append, hhead, htail]

lemma not_mem_stubComment (htag : '\n' ∉ tag) (hname : '\n' ∉ name) : '\n' ∉ stubComment tag name := by
  have h₁ : '\n' ∉ " implements the \"".toList := by decide
  have h₂ : '\n' ∉ "\" validation tag.".toList := by decide
  unfold stubComment
  simp only [List.mem_append, not_or]
  exact ⟨⟨⟨⟨by decide, hname⟩, h₁⟩, htag⟩, h₂⟩

lemma not_mem_stubNote (htag : '\n' ∉ tag) : '\n' ∉ stubNote tag := by
  have h₁ : '\n' ∉ " Implement the ".toList := by decide
  have h₂ : '\n' ∉ " rule here.".toList := by decide
  unfold stubNote
  simp only [List.mem_append, not_or]
  exact ⟨⟨h₁, htag⟩, h₂⟩

lemma newline_not_mem_of_isLocalName (h : isLocalName name) : '\n' ∉ name := fun hmem =>
  absurd (List.all_eq_true.1 (all_isPathChar_of_isLocalName h) _ hmem) (by decide)

lemma lex_stub_append (htag : '\n' ∉ tag) (hname : isLocalName name) :
    lex (stub tag name ++ y) = stubLexemes tag name ++ lex y := by
  have hall := all_isPathChar_of_isLocalName hname
  have hcomment := not_mem_stubComment htag (newline_not_mem_of_isLocalName hname)
  have hnote := not_mem_stubNote htag
  have hfunc : ∀ z, lex ("func ".toList ++ (name ++ z)) = lex "func " ++ lex (name ++ z) := by
    intro z
    refine Source.lex_append (by decide +kernel) fun l hl => ?_
    have hlast : (lex "func ").getLast? = some ⟨.blank, [' ']⟩ := by
      decide +kernel
    rw [hlast] at hl
    cases hl
    rcases name with _ | ⟨c, s⟩
    · cases hname
    · rw [List.all_cons, Bool.and_eq_true] at hall
      simp [Source.Lexeme.precedes, Source.Lexeme.separates, Source.not_isBlank_of_isPathChar hall.1]
  have hhead : ∀ z : Text, lex ("(fl validator.FieldLevel) bool \x7b\n\t".toList ++ '/' :: z) =
      lex "(fl validator.FieldLevel) bool \x7b\n\t" ++ lex ('/' :: z) := by
    intro z
    refine Source.lex_append (by decide +kernel) fun l hl => ?_
    have hlast : (lex "(fl validator.FieldLevel) bool \x7b\n\t").getLast? = some ⟨.blank, ['\t']⟩ := by
      decide +kernel
    rw [hlast] at hl
    cases hl
    rfl
  have htail : Source.IsClosed "\n\treturn true\n\x7d\n" :=
    Source.isClosed_of_newline (by decide +kernel) (by decide +kernel)
  have hparen : ∀ z : Text, lex (name ++ ("(fl validator.FieldLevel) bool \x7b\n\t".toList ++ z)) =
      lex name ++ lex ("(fl validator.FieldLevel) bool \x7b\n\t".toList ++ z) :=
    fun z => Source.lex_path_append hall (by decide) (by decide)
  rw [stub_eq]
  simp only [List.cons_append, List.append_assoc]
  rw [Source.lex_lineComment hcomment, Source.lex_newline, hfunc, hparen, hhead]
  have hsplit : "\n\treturn true\n\x7d\n".toList = '\n' :: "\treturn true\n\x7d\n".toList := by
    repeat rw [String.toList_ofList]
  have hbody : lex ('/' :: '/' :: (stubNote tag ++ ("\n\treturn true\n\x7d\n".toList ++ y))) =
      ⟨.lineComment, '/' :: '/' :: stubNote tag⟩ :: (lex "\n\treturn true\n\x7d\n" ++ lex y) := by
    rw [← htail y, hsplit, List.cons_append, Source.lex_lineComment hnote]
  rw [hbody, stubLexemes]
  simp only [List.cons_append, List.nil_append, List.append_assoc]

lemma isClosed_stub (htag : '\n' ∉ tag) (hname : isLocalName name) : Source.IsClosed (stub tag name) := by
  intro y
  have h := lex_stub_append (y := []) htag hname
  rw [List.append_nil, Source.lex_nil, List.append_nil] at h
  rw [lex_stub_append htag hname, h]

/-- The code of a function to be filled in. -/
lemma commentsBlanked_stub (htag : '\n' ∉ tag) (hname : isLocalName name) :
    commentsBlanked (stub tag name) = (Source.blanked ('/' :: '/' :: stubComment tag name) ++ ['\n']) ++
      ("func ".toList ++ (name ++ '(' :: ("fl validator.FieldLevel) bool \x7b\n\t".toList ++
        (Source.blanked ('/' :: '/' :: stubNote tag) ++ "\n\treturn true\n\x7d\n".toList)))) := by
  have h := lex_stub_append (y := []) htag hname
  rw [List.append_nil, Source.lex_nil, List.append_nil] at h
  have hname' : codeOf (lex name) = name := by
    rw [Source.codeOf_of_no_comment, Source.joined_lex]
    intro l hl
    have := Source.isWordlike_of_mem_lex (all_isPathChar_of_isLocalName hname) hl
    revert this
    cases l.kind <;> simp [Source.Kind.isWordlike, Source.Kind.isComment]
  have h₁ : codeOf (lex "func ") = "func ".toList := by
    decide +kernel
  have h₂ : codeOf (lex "(fl validator.FieldLevel) bool \x7b\n\t") =
      '(' :: "fl validator.FieldLevel) bool \x7b\n\t".toList := by
    decide +kernel
  have h₃ : codeOf (lex "\n\treturn true\n\x7d\n") = "\n\treturn true\n\x7d\n".toList := by
    decide +kernel
  rw [Source.commentsBlanked_eq, h, stubLexemes]
  simp only [Source.codeOf_append, Source.codeOf_cons, Source.codeOf_nil, hname', h₁, h₂, h₃, List.append_nil,
    List.append_assoc]
  rfl

/-- **A function to be filled in is found.** -/
theorem declares_stub (htag : '\n' ∉ tag) (hname : isLocalName name) : Declares (stub tag name) name where
  isName := by
    rcases name with _ | ⟨c, s⟩
    · cases hname
    · rw [isLocalName, Bool.and_eq_true] at hname
      exact ⟨c, s, rfl, hname⟩
  closed := isClosed_stub htag hname
  code := by
    have hcomment := not_mem_stubComment htag (newline_not_mem_of_isLocalName hname)
    have hnote : '\n' ∉ '/' :: '/' :: stubNote tag := by simpa using not_mem_stubNote htag
    have hspaces : ∀ c ∈ Source.blanked ('/' :: '/' :: stubNote tag), c = ' ' := fun c =>
      Source.eq_space_of_mem_blanked hnote
    have hflat : '\n' ∉ Source.blanked ('/' :: '/' :: stubNote tag) := fun h => absurd (hspaces _ h) (by decide)
    refine ⟨_, _, commentsBlanked_stub htag hname, ?_, ?_, ?_, ?_⟩
    · rw [List.all_append, Bool.and_eq_true]
      refine ⟨List.all_eq_true.2 fun c hc => ?_, by decide⟩
      rw [Source.eq_space_of_mem_blanked (by simpa using hcomment) hc]
      decide
    · simp
    · have hhead : 'f' ∉ Detection.lineHeads false "fl validator.FieldLevel) bool \x7b\n\t" := by decide +kernel
      have hfresh : Detection.freshBehind false "fl validator.FieldLevel) bool \x7b\n\t" = false := by decide +kernel
      have htail : 'f' ∉ Detection.lineHeads false "\n\treturn true\n\x7d\n" := by decide +kernel
      rw [Detection.lineHeads_append, Detection.lineHeads_append, hfresh, Detection.lineHeads_of_no_break hflat,
        Detection.freshBehind_of_no_break hflat (.inl rfl)]
      simp only [List.nil_append, List.mem_append, not_or]
      exact ⟨hhead, htail⟩
    · have hend : ∀ b, Detection.freshBehind b "\n\treturn true\n\x7d\n" = true := by decide +kernel
      rw [Detection.freshBehind_append, Detection.freshBehind_append, hend]

/-! ### Functions that are known -/

/-- A text that can be evaluated declares the function behind its comment. -/
lemma declares_of_eq {comment body : Text} (h : isLocalName name ∧ isWhole text ∧
      (lex text).getLast? = some ⟨.newline, ['\n']⟩ ∧ '\n' ∉ comment ∧
      commentsBlanked text = Source.blanked comment ++ '\n' :: ("func ".toList ++ (name ++ '(' :: body)) ∧
      'f' ∉ Detection.lineHeads false body ∧ Detection.freshBehind false body) : Declares text name := by
  obtain ⟨hname, hw, hl, hcomment, hcode, hbody, hend⟩ := h
  refine ⟨?_, Source.isClosed_of_newline hw hl, Source.blanked comment ++ ['\n'], body, by rw [hcode, List.append_assoc]; rfl,
    ?_, by simp, hbody, hend⟩
  · rcases name with _ | ⟨c, s⟩
    · cases hname
    · rw [isLocalName, Bool.and_eq_true] at hname
      exact ⟨c, s, rfl, hname⟩
  · rw [List.all_append, Bool.and_eq_true]
    refine ⟨List.all_eq_true.2 fun c hc => ?_, by decide⟩
    rw [Source.eq_space_of_mem_blanked hcomment hc]
    decide

lemma declares_registerAll : Declares registerAll "init" :=
  @declares_of_eq "init" registerAll
    "// init registers every entry of registerValidation with the shared validator."
    (") \x7b\n\tfor tag, fn := range registerValidation \x7b\n\t\t_ = validate.RegisterValidation(tag, fn)\n" ++
      "\t\x7d\n\x7d\n") <| by
    unfold registerAll lines
    simp only [List.flatMap_cons, List.flatMap_nil]
    repeat rw [String.toList_ofList]
    decide +kernel

lemma declares_mobileFunction : Declares mobileFunction "validateMobile" :=
  @declares_of_eq "validateMobile" mobileFunction
    "// validateMobile reports whether the field holds a mainland China mobile number."
    ("fl validator.FieldLevel) bool \x7b\n\tmatch, _ := regexp.MatchString(`^1[3-9]\\d\x7b9\x7d$`, fl.Field().String())\n" ++
      "\treturn match\n\x7d\n") <| by
    unfold mobileFunction lines
    simp only [List.flatMap_cons, List.flatMap_nil]
    repeat rw [String.toList_ofList]
    decide +kernel

lemma declares_idCardFunction : Declares idCardFunction "validateIdCard" :=
  @declares_of_eq "validateIdCard" idCardFunction
    "// validateIdCard reports whether the field holds a 15 or 18 digit ID card number."
    ("fl validator.FieldLevel) bool \x7b\n\tmatch, _ := regexp.MatchString(" ++
      "`(^\\d\x7b15\x7d$)|(^\\d\x7b18\x7d$)|(^\\d\x7b17\x7d(\\d|X|x)$)`, fl.Field().String())\n" ++
      "\treturn match\n\x7d\n") <| by
    unfold idCardFunction lines
    simp only [List.flatMap_cons, List.flatMap_nil]
    repeat rw [String.toList_ofList]
    decide +kernel

lemma declares_known (h : knownFunction? name = some text) : Declares text name := by
  unfold knownFunction? at h
  split at h
  · next e =>
    cases h
    rw [e]
    exact declares_mobileFunction
  · split at h
    · next e =>
      cases h
      rw [e]
      exact declares_idCardFunction
    · cases h

end RuleWeaver.Snippet
