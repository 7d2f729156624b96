import RuleWeaver.Proofs.Detection.CoveredHeads
import RuleWeaver.Proofs.Rule.NormalForm
import RuleWeaver.Proofs.Source.Nesting
import RuleWeaver.Proofs.Snippet

/-!
# Names of functions

The function of a tag is named after the tag.  The name is an identifier exactly if the alphanumeric characters of the tag are
letters and decimal digits, and those of the first one in upper case too (`isIdentifier_defaultFunction_iff`).  The function that
is written for the tag is found under this name exactly if no comment covers its head: a tag with line breaks can begin a comment in
front of it that ends behind it (`stub_is_found_iff`).
-/

namespace RuleWeaver

open Source
open Unicode (covers letters decimalDigits isAlphanumeric isWord toUpper)
open Detection (FunctionHead HasFunctionHead IsFoundName IsCovered freshBehind)
open Rule (defaultFunction nameChar)

variable {s tag name A K M : Text} {c : Char} {l : Lexeme} {xs ys : List Lexeme}

/-! ### Identifiers -/

/-- Letters, decimal digits and the underscore. -/
def isIdentifierChar (c : Char) : Bool := covers letters c.toNat || covers decimalDigits c.toNat || c = '_'

/-- Whether a text is an identifier: it begins with a letter or an underscore. -/
def IsIdentifier : Text → Prop
  | [] => False
  | c :: s => (covers letters c.toNat ∨ c = '_') ∧ ∀ d ∈ s, isIdentifierChar d

instance : DecidablePred IsIdentifier
  | [] => inferInstanceAs (Decidable False)
  | _ :: s => decidable_of_iff (_ ∧ s.all isIdentifierChar) (and_congr_right fun _ => List.all_eq_true)

/-- Whether the characters of a tag that are taken over into a name are those of identifiers. -/
def Rule.HasIdentifierChars : Text → Prop
  | [] => True
  | c :: s => (∀ d ∈ toUpper (nameChar c), isIdentifierChar d) ∧ ∀ d ∈ s, isAlphanumeric d → isIdentifierChar d

instance : DecidablePred Rule.HasIdentifierChars
  | [] => inferInstanceAs (Decidable True)
  | c :: s => decidable_of_iff ((toUpper (nameChar c)).all isIdentifierChar ∧ s.all fun d => !isAlphanumeric d || isIdentifierChar d)
    (and_congr List.all_eq_true (by simp [Decidable.imp_iff_not_or]))

open Rule (HasIdentifierChars)

lemma isIdentifierChar_nameChar_iff : isIdentifierChar (nameChar c) ↔ (isAlphanumeric c → isIdentifierChar c) := by
  have hunderscore : isIdentifierChar '_' := by decide +kernel
  unfold nameChar
  by_cases hc : isAlphanumeric c
  · simp [hc]
  · by_cases he : c = '_'
    · subst he
      simp [hunderscore]
    · simp [hc, he, hunderscore]

/-- Identifiers are made of word characters. -/
lemma isWord_of_isIdentifierChar (h : isIdentifierChar c) : isWord c := by
  have hascii : ∀ n < 128, isIdentifierChar (Char.ofNat n) → isWord (Char.ofNat n) := by decide +kernel
  by_cases hc : c.toNat < 128
  · have := hascii c.toNat hc
    rw [Char.ofNat_toNat] at this
    exact this h
  · have hne : c ≠ '_' := by
      rintro rfl
      exact hc (by decide)
    have hc' : ¬ c.toNat < 0x80 := hc
    rw [isIdentifierChar, decide_eq_false hne, Bool.or_false, Bool.or_eq_true] at h
    rw [isWord, if_neg hc', Unicode.isAlphabetic, if_neg hc']
    rcases h with h | h <;> simp [h]

/-! ### The names of functions -/

lemma defaultFunction_cases (tag : Text) : (∃ name, (tag, name) ∈ Rule.seeded ∧ defaultFunction tag = name) ∨
    (tag = [] ∧ defaultFunction tag = "validate") ∨
    ∃ c s, tag = c :: s ∧ defaultFunction tag = "validate" ++ (toUpper (nameChar c) ++ s.map nameChar) := by
  unfold defaultFunction
  cases hs : Rule.seeded.lookup tag with
  | some name =>
    obtain ⟨l₁, l₂, hmem, -⟩ := List.lookup_eq_some_iff.1 hs
    exact .inl ⟨name, by rw [hmem]; simp, rfl⟩
  | none =>
    rcases tag with _ | ⟨c, s⟩
    · exact .inr (.inl ⟨rfl, rfl⟩)
    · exact .inr (.inr ⟨c, s, rfl, List.append_assoc _ _ _⟩)

lemma prefix_defaultFunction : "validate".toList <+: defaultFunction tag := by
  rcases defaultFunction_cases tag with ⟨name, hmem, h⟩ | ⟨-, h⟩ | ⟨c, s, -, h⟩
  · have hseeded : ∀ e ∈ Rule.seeded, "validate".toList <+: e.2 := by decide
    rw [h]
    exact hseeded _ hmem
  · exact h ▸ List.prefix_rfl
  · exact h ▸ List.prefix_append _ _

lemma length_lt_defaultFunction : tag.length < (defaultFunction tag).length := by
  rcases defaultFunction_cases tag with ⟨name, hmem, h⟩ | ⟨rfl, h⟩ | ⟨c, s, rfl, h⟩
  · have hseeded : ∀ e ∈ Rule.seeded, e.1.length < e.2.length := by decide
    rw [h]
    exact hseeded _ hmem
  · rw [h]
    decide
  · have hlead : "validate".toList.length = 8 := by decide
    rw [h, List.length_append, List.length_append, List.length_map, hlead, List.length_cons]
    omega

/-- **Which names are identifiers.** -/
theorem isIdentifier_defaultFunction_iff : IsIdentifier (defaultFunction tag) ↔ HasIdentifierChars tag := by
  have hlead : "validate".toList = 'v' :: "alidate".toList := by decide
  have hv : covers letters 'v'.toNat := by decide +kernel
  have halidate : ∀ d ∈ "alidate".toList, isIdentifierChar d := List.all_eq_true.1 (by decide +kernel)
  rcases defaultFunction_cases tag with ⟨name, hmem, h⟩ | ⟨rfl, h⟩ | ⟨c, s, rfl, h⟩
  · have hseeded : ∀ e ∈ Rule.seeded, IsIdentifier e.2 ∧ HasIdentifierChars e.1 := by decide +kernel
    rw [h]
    exact iff_of_true (hseeded _ hmem).1 (hseeded _ hmem).2
  · rw [h, hlead]
    exact ⟨fun _ => trivial, fun _ => ⟨.inl hv, halidate⟩⟩
  · rw [h, hlead, List.cons_append, IsIdentifier, HasIdentifierChars, and_iff_right (.inl hv), List.forall_mem_append,
      and_iff_right halidate, List.forall_mem_append, List.forall_mem_map]
    exact and_congr_right fun _ => forall₂_congr fun _ _ => isIdentifierChar_nameChar_iff

lemma isFoundName_of_isIdentifier (h : IsIdentifier (defaultFunction tag)) : IsFoundName (defaultFunction tag) := by
  obtain ⟨z, hz⟩ : "validate".toList <+: defaultFunction tag := prefix_defaultFunction
  have hlead : "validate".toList = 'v' :: "alidate".toList := by decide
  rw [hlead, List.cons_append] at hz
  rw [← hz] at h ⊢
  exact ⟨'v', _, rfl, by decide, List.all_eq_true.2 fun d hd => isWord_of_isIdentifierChar (h.2 d hd)⟩

/-! ### Comments in front of a function -/

lemma getLast?_of_blockComment (hl : l ∈ lex s) (hk : l.kind = .blockComment) : l.text.getLast? = some '/' := by
  obtain ⟨xs, ys, hlex⟩ := List.append_of_mem hl
  have hsound : l.isSound := by simp [Lexeme.isSound, hk]
  obtain ⟨-, -, body, -, -, -, -, htext⟩ :=
    exists_cut_of_blockComment (t := ⟨l.kind, l.text, (joined xs).width⟩) (mem_tokens.2 ⟨xs, ys, hlex, rfl⟩) hsound hk
  have hclosing : "*/".toList = ['*', '/'] := by decide
  rw [show l.text = _ from htext, hclosing, ← List.append_assoc]
  exact List.getLast?_append_of_ne_nil _ (List.cons_ne_nil _ _)

/-- What stands behind a comment that covers the first character of a line: everything from the first slash on, or less. -/
lemma around_comment (hlex : lex (A ++ '\n' :: (K ++ '/' :: M)) = xs ++ l :: ys) (hl : l.kind.isComment)
    (hslash : '/' ∉ K) (hstart : (joined xs).width ≤ (A ++ ['\n']).width)
    (hstop : (A ++ ['\n']).width < (joined xs).width + l.text.width) :
    joined xs <+: A ++ ['\n'] ∧ joined ys <:+ M := by
  have hmem : l ∈ lex (A ++ '\n' :: (K ++ '/' :: M)) := by rw [hlex]; simp
  have htext : joined xs ++ (l.text ++ joined ys) = (A ++ ['\n']) ++ (K ++ '/' :: M) := by
    have := joined_lex (s := A ++ '\n' :: (K ++ '/' :: M))
    rw [hlex, joined_append, joined_cons] at this
    rw [this, List.append_assoc]
    rfl
  obtain ⟨p, hp, hbehind⟩ := Text.append_eq_append_of_le htext hstart
  have hwidth : p.width < l.text.width := by
    rw [hp, Text.width_append] at hstop
    omega
  obtain ⟨q, hq, hys⟩ := Text.append_eq_append_of_le hbehind.symm (Nat.le_of_lt hwidth)
  have hqne : q ≠ [] := by
    rintro rfl
    rw [hq, List.append_nil] at hwidth
    exact Nat.lt_irrefl _ hwidth
  refine ⟨⟨p, hp.symm⟩, ?_⟩
  -- the comment goes on to a slash behind the line break
  have hmemq : '/' ∈ q := by
    rcases comment_cases hmem hl with ⟨-, t, ht, hbreak⟩ | ⟨hk, -⟩
    · rcases List.eq_nil_or_concat' p with rfl | ⟨p, d, rfl⟩
      · rw [← show l.text = q from hq, ht]
        exact List.mem_cons_self
      · rw [← List.append_assoc] at hp
        have hd : '\n' = d := (List.append_inj' hp rfl).2 |> List.singleton_inj.1
        have hnot : '\n' ∉ l.text := by
          rw [ht]
          simp [hbreak]
        exact absurd (by rw [hq, hd]; simp) hnot
    · have hlast := getLast?_of_blockComment hmem hk
      rw [hq, List.getLast?_append_of_ne_nil _ hqne] at hlast
      exact List.mem_of_getLast? hlast
  rcases List.append_eq_append_iff.1 hys with ⟨w, hw, hM⟩ | ⟨w, hw, -⟩
  · rcases w with _ | ⟨e, w⟩
    · rw [List.append_nil] at hw
      exact absurd (hw ▸ hmemq) hslash
    · cases hM
      exact ⟨w, rfl⟩
  · exact absurd (hw ▸ List.mem_append_left _ hmemq) hslash

/-- The first line of a text, when it is a comment. -/
lemma lex_firstLine : lex ('/' :: '/' :: s) =
    ⟨.lineComment, '/' :: '/' :: s.takeWhile (· ≠ '\n')⟩ :: lex (s.dropWhile (· ≠ '\n')) := by
  have hline : '\n' ∉ s.takeWhile (· ≠ '\n') := fun hmem => absurd (List.mem_takeWhile_imp hmem) (by decide)
  have hnext : (s.dropWhile (· ≠ '\n')).head?.all (· = '\n') := by
    have hhead := List.head?_dropWhile_not (fun c => decide (c ≠ '\n')) s
    cases hd : (s.dropWhile (· ≠ '\n')).head? with
    | none => rfl
    | some c =>
      rw [hd] at hhead
      simpa using hhead
  conv_lhs => rw [← List.takeWhile_append_dropWhile (p := fun c => decide (c ≠ '\n')) (l := s)]
  exact lex_lineComment_append hline hnext

namespace Snippet

/-- The offset of the head of a function to be filled in. -/
def headOffset (tag name : Text) : Nat := Text.width ('/' :: '/' :: (stubComment tag name ++ ['\n']))

/-- What stands between the keyword of the function and the comment inside it. -/
def stubHead (name : Text) : Text := "func " ++ (name ++ "(fl validator.FieldLevel) bool \x7b\n\t")

/-- What stands behind the first slash of that comment. -/
def stubRest (tag : Text) : Text := '/' :: (stubNote tag ++ "\n\treturn true\n\x7d\n")

lemma stub_eq_head :
    stub tag name = '/' :: '/' :: (stubComment tag name ++ '\n' :: (stubHead name ++ '/' :: stubRest tag)) := by
  rw [stub_eq, stubHead, stubRest]
  simp only [List.append_assoc]

/-- What is behind the first line break of a tag, and the rest of the comment above the function. -/
lemma dropWhile_stubComment (hname : '\n' ∉ name) :
    (stubComment tag name).dropWhile (· ≠ '\n') ++ ['\n'] <:+ tag ++ "\" validation tag.\n" := by
  have hlead : ∀ c ∈ " " ++ name ++ " implements the \"", decide (c ≠ '\n') = true := by
    have hclear : '\n' ∉ " ".toList ++ name ++ " implements the \"".toList := by
      simp only [List.mem_append, not_or]
      exact ⟨⟨by decide, hname⟩, by decide⟩
    exact fun c hc => decide_eq_true fun e => hclear (e ▸ hc)
  have hend : "\" validation tag.\n".toList = "\" validation tag.".toList ++ ['\n'] := by decide
  have hcomment : stubComment tag name = (" " ++ name ++ " implements the \"") ++ (tag ++ "\" validation tag.") :=
    List.append_assoc _ _ _
  rw [hcomment, List.dropWhile_append_of_pos hlead, hend, ← List.append_assoc, List.suffix_append_inj_of_length_eq rfl]
  exact ⟨List.dropWhile_suffix _, rfl⟩

/-- The name is not in front of a comment that covers the head of the function. -/
lemma not_infix_front (hname : IsFoundName name) (hlead : "validate".toList <+: name) (hlength : tag.length < name.length) :
    ¬ name <:+: tag ++ "\" validation tag.\n" := by
  have hend : "\" validation tag.\n".toList = '\"' :: " validation tag.\n".toList := by decide
  have hquote : '\"' ∉ name := hname.not_mem (by decide)
  intro h
  rw [hend] at h
  rcases Text.infix_of_infix_append_cons h hquote with h | h
  · exact absurd h.length_le (Nat.not_le_of_lt hlength)
  · exact absurd (hlead.isInfix.trans h) (by decide +kernel)

/-- Nor is it behind it. -/
lemma not_infix_stubRest (hname : IsFoundName name) (hlead : "validate".toList <+: name) (hlength : tag.length < name.length) :
    ¬ name <:+: stubRest tag := by
  have hfront : " Implement the ".toList = " Implement the".toList ++ [' '] := by decide +kernel
  have hend : " rule here.".toList ++ "\n\treturn true\n\x7d\n".toList =
      ' ' :: "rule here.\n\treturn true\n\x7d\n".toList := by decide +kernel
  have hshape : ∀ {a a' b b' d : Text}, a = a' ++ [' '] → b ++ d = ' ' :: b' →
      '/' :: (((a ++ tag) ++ b) ++ d) = ('/' :: a') ++ ' ' :: (tag ++ ' ' :: b') := by
    intro a a' b b' d ha hb
    rw [ha, ← hb]
    simp
  have hrest : stubRest tag =
      ('/' :: " Implement the") ++ ' ' :: (tag ++ ' ' :: "rule here.\n\treturn true\n\x7d\n".toList) :=
    hshape hfront hend
  have hspace : ' ' ∉ name := hname.not_mem (by decide)
  intro h
  rw [hrest] at h
  rcases Text.infix_of_infix_append_cons h hspace with h | h
  · exact absurd (hlead.isInfix.trans h) (by decide +kernel)
  rcases Text.infix_of_infix_append_cons h hspace with h | h
  · exact absurd h.length_le (Nat.not_le_of_lt hlength)
  · exact absurd (hlead.isInfix.trans h) (by decide +kernel)

/-- The first line of a function to be filled in is a comment by itself. -/
lemma exists_lex_stub (tag : Text) (hname : '\n' ∉ name) : ∃ first A : Text,
    lex (stub tag name) = ⟨.lineComment, '/' :: '/' :: first⟩ :: lex (A ++ '\n' :: (stubHead name ++ '/' :: stubRest tag)) ∧
      headOffset tag name = Text.width ('/' :: '/' :: first) + Text.width (A ++ ['\n']) ∧
        A ++ ['\n'] <:+ tag ++ "\" validation tag.\n" := by
  have hbreak : decide ('\n' ≠ '\n') = false := by decide
  refine ⟨(stubComment tag name).takeWhile (· ≠ '\n'), (stubComment tag name).dropWhile (· ≠ '\n'), ?_, ?_,
    dropWhile_stubComment hname⟩
  · rw [stub_eq_head, lex_firstLine, Text.takeWhile_append_cons hbreak, Text.dropWhile_append_cons hbreak]
  · rw [← Text.width_append, List.cons_append, List.cons_append, ← List.append_assoc, List.takeWhile_append_dropWhile]
    rfl

/-- **A function whose head is covered** is not found. -/
lemma not_found_of_isCovered (hname : IsFoundName name) (hlead : "validate".toList <+: name) (hlength : tag.length < name.length)
    (hcovered : IsCovered (stub tag name) (headOffset tag name)) : ¬ HasFunctionHead name (stub tag name) := by
  have hunspaced : name.IsUnspaced := by
    refine ⟨?_, hname.not_mem (by decide), hname.not_mem (by decide)⟩
    obtain ⟨c, t, rfl, -⟩ := hname
    exact List.cons_ne_nil _ _
  have hslash : '/' ∉ stubHead name := by
    simp only [stubHead, List.mem_append, not_or]
    exact ⟨by decide, hname.not_mem (by decide), by decide⟩
  obtain ⟨t, ht, hcomment, hstart, hstop⟩ := hcovered
  obtain ⟨zs, ys, hlex, hwidth⟩ := mem_tokens.1 ht
  rintro ⟨u, v, rest, hcode, -, w, w', d, -, -, -, -, -, rfl⟩
  have hfound : name <:+: codeOf (zs ++ t.lexeme :: ys) := by
    rw [← hlex, ← commentsBlanked_eq, hcode]
    exact ⟨u ++ ("func".toList ++ w), w' ++ d :: rest, by simp only [List.append_assoc]⟩
  obtain ⟨first, A, hstub, hoffset, hsuffix⟩ := exists_lex_stub tag hunspaced.2.2
  rw [Token.stop, hwidth, hoffset] at hstop
  rw [hwidth, hoffset] at hstart
  rw [hstub] at hlex
  rcases zs with _ | ⟨l, xs⟩
  · -- the first line ends in front of the head
    obtain ⟨hfirst, -⟩ := List.cons.inj hlex
    have htext : '/' :: '/' :: first = t.text := congrArg Lexeme.text hfirst
    rw [← htext, joined_nil, Text.width_nil] at hstop
    omega
  obtain ⟨rfl, hrest⟩ := List.cons.inj hlex
  have hjoined : (joined (⟨.lineComment, '/' :: '/' :: first⟩ :: xs)).width =
      Text.width ('/' :: '/' :: first) + (joined xs).width := by
    rw [joined_cons, Text.width_append]
  rw [hjoined] at hstart hstop
  obtain ⟨hfront, hbehind⟩ := around_comment hrest hcomment hslash (Nat.le_of_add_le_add_left hstart)
    (Nat.lt_of_add_lt_add_left (by rwa [Nat.add_assoc] at hstop))
  have hbegins : name <:+: codeOf ([] ++ ⟨.lineComment, '/' :: '/' :: first⟩ :: (xs ++ t.lexeme :: ys)) := hfound
  rcases infix_codeOf_of_comment hunspaced rfl (List.cons_ne_nil _ _) hbegins with h | h
  · exact hunspaced.1 (List.eq_nil_of_infix_nil h)
  obtain ⟨c, hc⟩ := exists_comment (l := t.lexeme) (by rw [hrest]; simp) hcomment
  rcases infix_codeOf_of_comment hunspaced hcomment (by rw [hc]; exact List.cons_ne_nil _ _) h with h | h
  · have hinfix := (infix_joined_of_codeOf hunspaced h).trans (hfront.isInfix.trans hsuffix.isInfix)
    exact not_infix_front hname hlead hlength hinfix
  · exact not_infix_stubRest hname hlead hlength ((infix_joined_of_codeOf hunspaced h).trans hbehind.isInfix)

/-- **Which functions to be filled in are found.** -/
theorem stub_is_found_iff (hname : IsFoundName name) (hlead : "validate".toList <+: name) (hlength : tag.length < name.length) :
    name ∈ Detection.functions (stub tag name) ↔ ¬ IsCovered (stub tag name) (headOffset tag name) := by
  rw [Detection.mem_functions_iff]
  constructor
  · exact fun hhead hcovered => not_found_of_isCovered hname hlead hlength hcovered hhead
  · intro hfree
    have hhead : ("(fl validator.FieldLevel) bool \x7b\n\t" : Text) = '(' :: "fl validator.FieldLevel) bool \x7b\n\t".toList := by
      decide +kernel
    have hsplit : stub tag name = ('/' :: '/' :: (stubComment tag name ++ ['\n'])) ++ ("func ".toList ++ (name ++
        '(' :: ("fl validator.FieldLevel) bool \x7b\n\t".toList ++ '/' :: stubRest tag))) := by
      rw [stub_eq_head, stubHead, hhead]
      simp only [List.append_assoc, List.cons_append, List.nil_append]
    refine hasFunctionHead_of_uncovered ?_ hname (hname.not_mem (by decide)) hsplit hfree
    rw [← List.cons_append, ← List.cons_append, Detection.freshBehind_append]
    rfl

end Snippet

/-- **Function names.**  The name of the function of a tag is an identifier under which the function to be filled in is found
exactly if the characters that it takes over from the tag are those of identifiers and no comment covers the head of the function. -/
theorem function_name_is_identifier_and_found_iff (tag : Text) :
    (IsIdentifier (defaultFunction tag) ∧
        defaultFunction tag ∈ Detection.functions (Snippet.stub tag (defaultFunction tag))) ↔
      HasIdentifierChars tag ∧
        ¬ IsCovered (Snippet.stub tag (defaultFunction tag)) (Snippet.headOffset tag (defaultFunction tag)) := by
  rw [← isIdentifier_defaultFunction_iff]
  exact and_congr_right fun h =>
    Snippet.stub_is_found_iff (isFoundName_of_isIdentifier h) prefix_defaultFunction length_lt_defaultFunction

/-- A superscript is taken over into the name, and is no part of an identifier. -/
theorem superscript_is_taken_over :
    (∃ r ∈ Rule.ofTag "validate:\"a²\"", r.tag = "a²".toList) ∧ defaultFunction "a²" = "validateA²".toList ∧
      ¬ (IsIdentifier (defaultFunction "a²") ∧
        defaultFunction "a²" ∈ Detection.functions (Snippet.stub "a²" (defaultFunction "a²"))) := by
  refine ⟨by decide +kernel, by decide +kernel, fun h => ?_⟩
  exact absurd ((function_name_is_identifier_and_found_iff "a²").1 h).1 (by decide +kernel)

/-- A tag that ends a comment, breaks the line and begins a comment hides its function. -/
theorem comment_marks_hide_function :
    (∃ r ∈ Rule.ofTag "validate:\"*/\n/*\"", r.tag = "*/\n/*".toList) ∧ IsIdentifier (defaultFunction "*/\n/*") ∧
      defaultFunction "*/\n/*" ∉ Detection.functions (Snippet.stub "*/\n/*" (defaultFunction "*/\n/*")) := by
  have hname : IsIdentifier (defaultFunction "*/\n/*") := by decide +kernel
  refine ⟨by decide +kernel, hname, ?_⟩
  rw [Snippet.stub_is_found_iff (isFoundName_of_isIdentifier hname) prefix_defaultFunction length_lt_defaultFunction, not_not]
  decide +kernel

end RuleWeaver
