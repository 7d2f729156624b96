import RuleWeaver.Proofs.Source.Files
import RuleWeaver.Proofs.Source.ImportSection
import RuleWeaver.Proofs.Source.WrittenForms

/-!
# Struct types that are printed

Struct types as a program would write them: one declaration for each type, one line for each field.  A printed type is a section
that is read as that type (`StructType.isSection`), so a package clause with printed types behind it has a tree with these types
(`exists_parse_printed`).
-/

namespace RuleWeaver.Source

variable {y : Text} {e : Bool} {ls : List Lexeme} {ts : List Token} {b : Nat}

/-! ### What is printed -/

/-- Whether a text is a name that no reserved word is, told by its characters. -/
def isIdentifier : Text → Bool
  | [] => false
  | c :: s => isNameStart c && s.all isNameChar && wordKind (c :: s) = .ident

/-- A name that no reserved word is. -/
structure Identifier where
  text : Text
  valid : isIdentifier text

/-- What can stand between backquotes. -/
structure RawTag where
  text : Text
  valid : '\x60' ∉ text

/-- What a line of a struct declares. -/
inductive FieldHead
  /-- Names that share a type. -/
  | named (first : Identifier) (more : List Identifier) (type : Identifier)
  /-- An embedded type, maybe behind a star, maybe qualified. -/
  | embedded (pointer : Bool) (qualifier : Option Identifier) (type : Identifier)

/-- A line of a struct. -/
structure FieldLine where
  head : FieldHead
  tag : Option RawTag

structure StructType where
  name : Identifier
  fields : List FieldLine

namespace FieldHead

def text : FieldHead → Text
  | named first more type => first.text ++ (more.flatMap (fun n => ',' :: ' ' :: n.text) ++ ' ' :: type.text)
  | embedded pointer qualifier type =>
    (if pointer then ['*'] else []) ++ (qualifier.elim [] (fun q => q.text ++ ['.']) ++ type.text)

/-- The names of the fields: an embedded type gives its own name, without the qualifier. -/
def names : FieldHead → List Text
  | named first more _ => first.text :: more.map (·.text)
  | embedded _ _ type => [type.text]

def isEmbedded : FieldHead → Bool
  | named .. => false
  | embedded .. => true

end FieldHead

namespace FieldLine

def text (f : FieldLine) : Text :=
  '\t' :: (f.head.text ++ (f.tag.elim [] (fun t => ' ' :: '\x60' :: (t.text ++ ['\x60'])) ++ ['\n']))

/-- The fields that the line declares. -/
def field (f : FieldLine) : Field := ⟨f.head.names, f.tag.map (·.text), f.head.isEmbedded⟩

end FieldLine

namespace StructType

def text (t : StructType) : Text :=
  "type ".toList ++ (t.name.text ++ (" struct \x7b\n".toList ++ (t.fields.flatMap FieldLine.text ++ "\x7d\n".toList)))

/-- The type that the text declares. -/
def spec (t : StructType) : TypeSpec := ⟨t.name.text, some (t.fields.map FieldLine.field)⟩

end StructType

/-- A file with a package clause and struct types, each behind an empty line. -/
def printedFile (package : Identifier) (types : List StructType) : Text :=
  "package ".toList ++ (package.text ++ '\n' :: types.flatMap fun t => '\n' :: t.text)

/-! ### Lexemes of a line -/

lemma isBlank_of_isNameStart {c : Char} (h : isNameStart c) : isBlank c = false :=
  not_isBlank_of_isPathChar (by simp [isPathChar, isNameChar, h])

lemma isOperatorChar_of_isNameStart {c : Char} (h : isNameStart c) : isOperatorChar c = false := by
  by_contra h'
  rw [Bool.not_eq_false] at h'
  unfold isOperatorChar at h'
  split at h' <;> first | exact absurd h (by decide) | cases h'

namespace Identifier

variable {n : Identifier}

lemma exists_cons (n : Identifier) : ∃ c s, n.text = c :: s ∧ isNameStart c ∧ s.all isNameChar ∧ wordKind (c :: s) = .ident := by
  obtain ⟨t, h⟩ := n
  rcases t with _ | ⟨c, s⟩
  · cases h
  · simp only [isIdentifier, Bool.and_eq_true, decide_eq_true_eq] at h
    exact ⟨c, s, rfl, h.1.1, h.1.2, h.2⟩

/-- What does not hold of the characters that names begin with does not hold of the first character of a name. -/
lemma head?_append {p : Char → Bool} (hp : ∀ c, isNameStart c → p c = false) : (n.text ++ y).head?.all (!p ·) := by
  obtain ⟨c, s, ht, hc, -, -⟩ := n.exists_cons
  simp [ht, hp c hc]

lemma lex_append (hy : y.head?.all (!isNameChar ·)) : lex (n.text ++ y) = ⟨.ident, n.text⟩ :: lex y := by
  obtain ⟨c, s, ht, hc, hs, hk⟩ := n.exists_cons
  have hblank : isBlank c = false := isBlank_of_isNameStart hc
  have hrun : Text.run isNameChar (s ++ y) = s.length := Text.run_append_eq_length_iff.2 ⟨hs, hy⟩
  rw [ht, List.cons_append]
  refine lex_cons ?_
  simp only [munch, hblank, Bool.false_eq_true, if_false, hc, if_true, hrun, List.take_left, hk]

/-- A name may stand behind a blank. -/
lemma precedes_append : Lexeme.precedes ⟨.blank, [' ']⟩ (n.text ++ y) := by
  have hname : (n.text ++ y).head?.all (!isBlank ·) := head?_append fun _ => isBlank_of_isNameStart
  simp only [Lexeme.precedes, Lexeme.separates, hname]
  rfl

end Identifier

lemma lex_space (hy : y.head?.all (!isBlank ·)) : lex (' ' :: y) = ⟨.blank, [' ']⟩ :: lex y := lex_blank rfl hy

lemma lex_star (hy : y.head?.all (!isOperatorChar ·)) : lex ('*' :: y) = ⟨.star, ['*']⟩ :: lex y := by
  have hrun : Text.run isOperatorChar y = ([] : Text).length := Text.run_append_eq_length_iff (u := []).2 ⟨rfl, hy⟩
  have hm : munch '*' ([] ++ y) = (.star, ([] : Text).length) := by
    show munchOperator '*' y = _
    simp only [munchOperator, hrun, List.length_nil, List.take_zero]
  exact lex_cons hm

lemma lex_dot (hy : y.head?.all fun c => !decide (c = '.')) : lex ('.' :: y) = ⟨.dot, ['.']⟩ :: lex y := by
  have hprefix : ¬ ['.', '.'].isPrefixOf y := by
    rcases y with _ | ⟨c, y⟩
    · simp
    · have hc : c ≠ '.' := by simpa using hy
      simp [List.isPrefixOf, Ne.symm hc]
  have hm : munch '.' ([] ++ y) = (.dot, ([] : Text).length) := by
    show (if ['.', '.'].isPrefixOf y then (Kind.ellipsis, 2) else (.dot, 0)) = _
    rw [if_neg hprefix]
    rfl
  exact lex_cons hm

/-- A dot in front of a name is a lexeme of its own. -/
lemma lex_dot_name {n : Identifier} : lex ('.' :: (n.text ++ y)) = ⟨.dot, ['.']⟩ :: lex (n.text ++ y) :=
  lex_dot <| Identifier.head?_append fun c hc => by
    rw [decide_eq_false_iff_not]
    rintro rfl
    exact absurd hc (by decide)

lemma lex_raw (t : RawTag) : lex ('\x60' :: (t.text ++ '\x60' :: y)) = ⟨.rawString, '\x60' :: (t.text ++ ['\x60'])⟩ :: lex y := by
  have hrun : Text.run (· ≠ '\x60') (t.text ++ '\x60' :: y) = t.text.length := by
    refine Text.run_append_eq_length_iff.2 ⟨List.all_eq_true.2 fun c hc => ?_, rfl⟩
    rw [decide_eq_true_eq]
    rintro rfl
    exact t.valid hc
  have hm : munch '\x60' ((t.text ++ ['\x60']) ++ y) = (.rawString, (t.text ++ ['\x60']).length) := by
    rw [List.append_assoc, List.singleton_append]
    show munchRaw _ = _
    simp only [munchRaw, hrun]
    rw [if_pos (by simp), List.length_append, List.length_singleton]
  rw [← lex_cons hm, List.append_assoc, List.singleton_append]

namespace FieldHead

/-- The lexemes of what a line declares. -/
def lexemes : FieldHead → List Lexeme
  | named first more type => ⟨.ident, first.text⟩ ::
      (more.flatMap (fun n => [⟨.comma, [',']⟩, ⟨.blank, [' ']⟩, ⟨.ident, n.text⟩]) ++ [⟨.blank, [' ']⟩, ⟨.ident, type.text⟩])
  | embedded pointer qualifier type =>
    (if pointer then [⟨.star, ['*']⟩] else []) ++
      (qualifier.elim [] (fun q => [⟨.ident, q.text⟩, ⟨.dot, ['.']⟩]) ++ [⟨.ident, type.text⟩])

/-- The lexemes of what a line declares, without blanks. -/
def code : FieldHead → List Lexeme
  | named first more type =>
    ⟨.ident, first.text⟩ :: (more.flatMap (fun n => [⟨.comma, [',']⟩, ⟨.ident, n.text⟩]) ++ [⟨.ident, type.text⟩])
  | embedded pointer qualifier type =>
    (if pointer then [⟨.star, ['*']⟩] else []) ++
      (qualifier.elim [] (fun q => [⟨.ident, q.text⟩, ⟨.dot, ['.']⟩]) ++ [⟨.ident, type.text⟩])

lemma lex_named {first type : Identifier} {more : List Identifier} (hy : y.head?.all (!isNameChar ·)) :
    lex ((named first more type).text ++ y) = (named first more type).lexemes ++ lex y := by
  have htype : lex (' ' :: (type.text ++ y)) = ⟨.blank, [' ']⟩ :: ⟨.ident, type.text⟩ :: lex y := by
    rw [lex_space (Identifier.head?_append fun _ => isBlank_of_isNameStart), Identifier.lex_append hy]
  suffices key : ∀ (first : Identifier) (more : List Identifier),
      lex (first.text ++ (more.flatMap (fun n => ',' :: ' ' :: n.text) ++ ' ' :: (type.text ++ y))) =
        ⟨.ident, first.text⟩ :: (more.flatMap (fun n => [⟨.comma, [',']⟩, ⟨.blank, [' ']⟩, ⟨.ident, n.text⟩]) ++
          ⟨.blank, [' ']⟩ :: ⟨.ident, type.text⟩ :: lex y) by
    simpa [text, lexemes] using key first more
  intro first more
  induction more generalizing first with
  | nil => rw [List.flatMap_nil, List.nil_append, Identifier.lex_append rfl, htype]; rfl
  | cons n more ih =>
    rw [List.flatMap_cons, List.append_assoc, List.cons_append, List.cons_append, Identifier.lex_append rfl, lex_comma,
      lex_space (Identifier.head?_append fun _ => isBlank_of_isNameStart), ih n, List.flatMap_cons]
    rfl

lemma lex_embedded {pointer : Bool} {qualifier : Option Identifier} {type : Identifier} (hy : y.head?.all (!isNameChar ·)) :
    lex ((embedded pointer qualifier type).text ++ y) = (embedded pointer qualifier type).lexemes ++ lex y := by
  have hqualified : lex (qualifier.elim [] (fun q => q.text ++ ['.']) ++ (type.text ++ y)) =
      qualifier.elim [] (fun q => [⟨.ident, q.text⟩, ⟨.dot, ['.']⟩]) ++ ⟨.ident, type.text⟩ :: lex y := by
    cases qualifier with
    | none => exact Identifier.lex_append hy
    | some q =>
      rw [Option.elim_some, Option.elim_some, List.append_assoc, List.singleton_append, Identifier.lex_append rfl, lex_dot_name,
        Identifier.lex_append hy]
      rfl
  cases pointer with
  | false => simpa [text, lexemes] using hqualified
  | true =>
    have hstar : (qualifier.elim [] (fun q => q.text ++ ['.']) ++ (type.text ++ y)).head?.all (!isOperatorChar ·) := by
      cases qualifier with
      | none => exact Identifier.head?_append fun _ => isOperatorChar_of_isNameStart
      | some q =>
        rw [Option.elim_some, List.append_assoc]
        exact Identifier.head?_append fun _ => isOperatorChar_of_isNameStart
    simpa [text, lexemes, hqualified] using lex_star hstar

lemma lex_append {h : FieldHead} (hy : y.head?.all (!isNameChar ·)) : lex (h.text ++ y) = h.lexemes ++ lex y := by
  cases h with
  | named => exact lex_named hy
  | embedded => exact lex_embedded hy

/-- What holds neither of the characters that names begin with nor of a star does not hold of the first character of a line. -/
lemma head?_append {h : FieldHead} {p : Char → Bool} (hp : ∀ c, isNameStart c → p c = false) (hstar : p '*' = false) :
    (h.text ++ y).head?.all (!p ·) := by
  cases h with
  | named first more type =>
    rw [text, List.append_assoc]
    exact Identifier.head?_append hp
  | embedded pointer qualifier type =>
    cases pointer with
    | true => simp [text, hstar]
    | false =>
      cases qualifier with
      | none => exact Identifier.head?_append hp
      | some q =>
        simp only [text, Option.elim_some, Bool.false_eq_true, if_false, List.nil_append, List.append_assoc]
        exact Identifier.head?_append hp

/-- Without blanks, the lexemes are the code; a line break behind them ends a statement. -/
lemma statementPart_lexemes (h : FieldHead) : statementPart e h.lexemes = h.code ∧ endingBehind e h.lexemes = true := by
  cases h with
  | named first more type =>
    suffices key : ∀ (more : List Identifier) (e : Bool),
        statementPart e (more.flatMap (fun n => [⟨.comma, [',']⟩, ⟨.blank, [' ']⟩, ⟨.ident, n.text⟩]) ++
            [⟨.blank, [' ']⟩, ⟨.ident, type.text⟩]) =
          more.flatMap (fun n => [⟨.comma, [',']⟩, ⟨.ident, n.text⟩]) ++ [⟨.ident, type.text⟩] ∧
        endingBehind e (more.flatMap (fun n => [⟨.comma, [',']⟩, ⟨.blank, [' ']⟩, ⟨.ident, n.text⟩]) ++
          [⟨.blank, [' ']⟩, ⟨.ident, type.text⟩]) = true by
      exact ⟨congrArg (_ :: ·) (key more true).1, (key more true).2⟩
    intro more
    induction more with
    | nil => exact fun _ => ⟨rfl, rfl⟩
    | cons n more ih => exact fun _ => ⟨congrArg (_ :: _ :: ·) (ih true).1, (ih true).2⟩
  | embedded pointer qualifier type => cases pointer <;> cases qualifier <;> exact ⟨rfl, rfl⟩

end FieldHead

/-! ### Lines and types -/

namespace FieldLine

/-- The lexemes of a tag, with the blank in front of it. -/
def tagLexemes (f : FieldLine) : List Lexeme :=
  f.tag.elim [] fun t => [⟨.blank, [' ']⟩, ⟨.rawString, '\x60' :: (t.text ++ ['\x60'])⟩]

def tagCode (f : FieldLine) : List Lexeme := f.tag.elim [] fun t => [⟨.rawString, '\x60' :: (t.text ++ ['\x60'])⟩]

/-- The code of a line. -/
def code (f : FieldLine) : List Lexeme := f.head.code ++ f.tagCode

def lexemes (f : FieldLine) : List Lexeme :=
  ⟨.blank, ['\t']⟩ :: (f.head.lexemes ++ (f.tagLexemes ++ [⟨.newline, ['\n']⟩]))

lemma lex_append (f : FieldLine) : lex (f.text ++ y) = f.lexemes ++ lex y := by
  have htag : lex (f.tag.elim [] (fun t => ' ' :: '\x60' :: (t.text ++ ['\x60'])) ++ '\n' :: y) =
      f.tagLexemes ++ ⟨.newline, ['\n']⟩ :: lex y := by
    unfold tagLexemes
    cases f.tag with
    | none => exact lex_newline
    | some t =>
      rw [Option.elim_some, List.cons_append, List.cons_append, List.append_assoc, List.singleton_append, lex_space rfl, lex_raw,
        lex_newline]
      rfl
  have hname : (f.tag.elim [] (fun t => ' ' :: '\x60' :: (t.text ++ ['\x60'])) ++ '\n' :: y).head?.all (!isNameChar ·) := by
    cases f.tag <;> rfl
  have hblank : (f.head.text ++ (f.tag.elim [] (fun t => ' ' :: '\x60' :: (t.text ++ ['\x60'])) ++ '\n' :: y)).head?.all
      (!isBlank ·) := by
    exact FieldHead.head?_append (fun _ => isBlank_of_isNameStart) rfl
  rw [text, List.cons_append, List.append_assoc, List.append_assoc, List.singleton_append, lex_blank rfl hblank,
    FieldHead.lex_append hname, htag, lexemes]
  simp

lemma statementPart_lexemes (f : FieldLine) :
    statementPart false f.lexemes = f.code ++ [.impliedSemi] ∧ endingBehind false f.lexemes = false := by
  obtain ⟨hhead, hend⟩ := f.head.statementPart_lexemes (e := false)
  have htag : statementPart true (f.tagLexemes ++ [⟨.newline, ['\n']⟩]) = f.tagCode ++ [.impliedSemi] ∧
      endingBehind true (f.tagLexemes ++ [⟨.newline, ['\n']⟩]) = false := by
    unfold tagLexemes tagCode
    cases f.tag <;> exact ⟨rfl, rfl⟩
  have hpart : statementPart false f.lexemes = statementPart false (f.head.lexemes ++ (f.tagLexemes ++ [⟨.newline, ['\n']⟩])) := rfl
  have hbehind : endingBehind false f.lexemes = endingBehind false (f.head.lexemes ++ (f.tagLexemes ++ [⟨.newline, ['\n']⟩])) := rfl
  rw [hpart, hbehind, statementPart_append, endingBehind_append, hhead, hend, htag.1, htag.2, code, List.append_assoc]
  exact ⟨rfl, rfl⟩

end FieldLine

/-- Whether a lexeme is of a class that occurs in the lines of a struct. -/
def Lexeme.isPlain (l : Lexeme) : Bool :=
  match l.kind with
  | .blank | .newline | .ident | .comma | .dot | .star | .rawString => true
  | _ => false

lemma Lexeme.isSound_of_isPlain {l : Lexeme} (h : l.isPlain) : l.isSound := by
  obtain ⟨k, w⟩ := l
  cases k <;> first | rfl | cases h

lemma Lexeme.unbracketed_of_isPlain {l : Lexeme} (h : l.isPlain) : l.kind.isOpen = false ∧ l.kind.isClose = false := by
  obtain ⟨k, w⟩ := l
  cases k <;> first | exact ⟨rfl, rfl⟩ | cases h

lemma FieldLine.all_isPlain (f : FieldLine) : f.lexemes.all Lexeme.isPlain := by
  obtain ⟨head, tag⟩ := f
  have htag : (FieldLine.tagLexemes ⟨head, tag⟩).all Lexeme.isPlain := by cases tag <;> rfl
  have hhead : head.lexemes.all Lexeme.isPlain := by
    cases head with
    | named first more type =>
      simp only [FieldHead.lexemes, List.all_cons, List.all_append, List.all_flatMap]
      exact Bool.and_eq_true_iff.2 ⟨rfl, Bool.and_eq_true_iff.2 ⟨List.all_eq_true.2 fun _ _ => rfl, rfl⟩⟩
    | embedded pointer qualifier type => cases pointer <;> cases qualifier <;> rfl
  rw [lexemes, List.all_cons, List.all_append, List.all_append, hhead, htag]
  rfl

namespace StructType

/-- The code of a type up to the brace behind `struct`. -/
def headCode (t : StructType) : List Lexeme :=
  [⟨.typeWord, "type"⟩, ⟨.ident, t.name.text⟩, ⟨.structWord, "struct"⟩, ⟨.lbrace, ['\x7b']⟩]

/-- The code of the lines of a type, each with its end. -/
def fieldsCode (t : StructType) : List Lexeme := t.fields.flatMap fun f => f.code ++ [.impliedSemi]

lemma lex_text (t : StructType) : lex t.text =
    ([⟨.typeWord, "type"⟩, ⟨.blank, [' ']⟩, ⟨.ident, t.name.text⟩, ⟨.blank, [' ']⟩, ⟨.structWord, "struct"⟩, ⟨.blank, [' ']⟩,
      ⟨.lbrace, ['\x7b']⟩, ⟨.newline, ['\n']⟩] ++ t.fields.flatMap FieldLine.lexemes) ++ [⟨.rbrace, ['\x7d']⟩, ⟨.newline, ['\n']⟩] := by
  have hfields : ∀ y, lex (t.fields.flatMap FieldLine.text ++ y) = t.fields.flatMap FieldLine.lexemes ++ lex y := by
    intro y
    induction t.fields with
    | nil => rfl
    | cons f fs ih => rw [List.flatMap_cons, List.append_assoc, FieldLine.lex_append, ih, List.flatMap_cons, List.append_assoc]
  have htype : lex "type ".toList = [⟨.typeWord, "type"⟩, ⟨.blank, [' ']⟩] := by decide +kernel
  have hstruct : lex " struct \x7b\n".toList = [⟨.blank, [' ']⟩, ⟨.structWord, "struct"⟩, ⟨.blank, [' ']⟩, ⟨.lbrace, ['\x7b']⟩,
      ⟨.newline, ['\n']⟩] := by decide +kernel
  have hclose : lex "\x7d\n".toList = [⟨.rbrace, ['\x7d']⟩, ⟨.newline, ['\n']⟩] := by decide +kernel
  have hblank : ∀ y, Lexeme.precedes ⟨.blank, [' ']⟩ (t.name.text ++ y) := fun _ => Identifier.precedes_append
  rw [text, lex_append_of_eq htype (by decide) (hblank _),
    Identifier.lex_append (by rfl), lex_append_of_eq hstruct (by decide) (by rfl), hfields, hclose]
  simp

end StructType

/-! ### Fields that are read -/

lemma unquote_raw (t : RawTag) : Text.unquote ('\x60' :: (t.text ++ ['\x60'])) = t.text := by
  have h : Text.between? '\x60' ('\x60' :: (t.text ++ ['\x60'])) = some t.text := by
    simp [Text.between?, Text.strip?, Text.stripEnd?]
  rw [Text.unquote, h]

/-- A segment without brackets ends at the first statement end. -/
lemma fieldSegments_append {segment : List Token} {semi : Token} (hsemi : semi.kind = .semi)
    (h : ∀ t ∈ segment, t.kind ≠ .semi ∧ t.kind.isOpen = false ∧ t.kind.isClose = false) :
    fieldSegments 0 (segment ++ semi :: ts) = segment :: fieldSegments 0 ts := by
  induction segment with
  | nil => simp [fieldSegments, hsemi]
  | cons t segment ih =>
    obtain ⟨hk, ho, hc⟩ := h t List.mem_cons_self
    simp [fieldSegments, hk, ho, hc, ih fun u hu => h u (List.mem_cons_of_mem _ hu)]

lemma splitTag_of_ident {body : List Token} {t : Token} (ht : t.kind = .ident) :
    splitTag (body ++ [t]) = (body ++ [t], none) := by
  simp [splitTag, ht]

lemma splitTag_of_raw {body : List Token} {t : Token} (ht : t.kind = .rawString) (hbody : body ≠ []) :
    splitTag (body ++ [t]) = (body, some (Text.unquote t.text)) := by
  simp [splitTag, ht, hbody]

namespace FieldHead

/-- The last token is the name of a type; an embedded type gives the field its name. -/
lemma exists_code_eq (h : FieldHead) :
    ∃ (init : List Lexeme) (type : Text), h.code = init ++ [⟨.ident, type⟩] ∧ (h.isEmbedded → h.names = [type]) := by
  cases h with
  | named first more type => exact ⟨_ :: _, type.text, by rw [code, List.cons_append], fun h => nomatch h⟩
  | embedded pointer qualifier type => exact ⟨_, type.text, (List.append_assoc ..).symm, fun _ => rfl⟩

lemma isEmbedded_code (h : FieldHead) : Source.isEmbedded (unplaced h.code) = h.isEmbedded := by
  cases h with
  | named first more type => cases more <;> rfl
  | embedded pointer qualifier type => cases pointer <;> cases qualifier <;> rfl

lemma fieldNames_code {h : FieldHead} (hh : h.isEmbedded = false) : fieldNames (unplaced h.code) = .ok h.names := by
  cases h with
  | embedded => cases hh
  | named first more type =>
    induction more generalizing first with
    | nil => rfl
    | cons n more ih =>
      have hstep : fieldNames (unplaced (named first (n :: more) type).code) =
          (fieldNames (unplaced (named n more type).code)).map (first.text :: ·) := rfl
      rw [hstep, ih n rfl]
      rfl

end FieldHead

/-- A line is read as the fields that it declares. -/
lemma FieldLine.field?_code (f : FieldLine) : field? (unplaced f.code) = .ok (some f.field) := by
  obtain ⟨head, tag⟩ := f
  obtain ⟨init, type, hcode, hname⟩ := head.exists_code_eq
  have hne : unplaced head.code ≠ [] := by
    rw [hcode]
    simp [unplaced]
  have hsplit : splitTag (unplaced (FieldLine.code ⟨head, tag⟩)) = (unplaced head.code, tag.map (·.text)) := by
    cases tag with
    | none =>
      have h := @splitTag_of_ident (unplaced init) ⟨.ident, type, 0⟩ rfl
      simpa [FieldLine.code, tagCode, hcode, unplaced] using h
    | some t =>
      have h := splitTag_of_raw (t := ⟨.rawString, '\x60' :: (t.text ++ ['\x60']), 0⟩) rfl hne
      rw [unquote_raw] at h
      simpa [FieldLine.code, tagCode, unplaced] using h
  have hempty : (unplaced (FieldLine.code ⟨head, tag⟩)).isEmpty = false := by
    rw [FieldLine.code, hcode]
    simp [unplaced]
  rw [field?, hempty, if_neg Bool.false_ne_true, hsplit]
  dsimp only
  rw [head.isEmbedded_code]
  cases h : head.isEmbedded with
  | true =>
    rw [if_pos rfl, hcode]
    simp [unplaced, FieldLine.field, h, hname h]
  | false =>
    rw [if_neg Bool.false_ne_true, FieldHead.fieldNames_code h]
    simp [Except.map, FieldLine.field, h]

lemma FieldLine.all_isPlain_code (f : FieldLine) : f.code.all Lexeme.isPlain := by
  obtain ⟨head, tag⟩ := f
  have htag : (FieldLine.tagCode ⟨head, tag⟩).all Lexeme.isPlain := by cases tag <;> rfl
  have hhead : head.code.all Lexeme.isPlain := by
    cases head with
    | named first more type =>
      simp only [FieldHead.code, List.all_cons, List.all_append, List.all_flatMap]
      exact Bool.and_eq_true_iff.2 ⟨rfl, Bool.and_eq_true_iff.2 ⟨List.all_eq_true.2 fun _ _ => rfl, rfl⟩⟩
    | embedded pointer qualifier type => cases pointer <;> cases qualifier <;> rfl
  rw [code, List.all_append, hhead, htag]
  rfl

lemma Lexeme.ne_semi_of_isPlain {l : Lexeme} (h : l.isPlain) : l.kind ≠ .semi := by
  intro hk
  rw [Lexeme.isPlain, hk] at h
  cases h

namespace StructType

lemma fieldSegments_code (fs : List FieldLine) :
    fieldSegments 0 (unplaced (fs.flatMap fun f => f.code ++ [.impliedSemi])) = fs.map (fun f => unplaced f.code) ++ [[]] := by
  induction fs with
  | nil => rfl
  | cons f fs ih =>
    have hplain : ∀ t ∈ unplaced f.code, t.kind ≠ .semi ∧ t.kind.isOpen = false ∧ t.kind.isClose = false := by
      intro t ht
      obtain ⟨l, hl, rfl⟩ := List.mem_map.1 ht
      have h := List.all_eq_true.1 f.all_isPlain_code l hl
      exact ⟨Lexeme.ne_semi_of_isPlain h, Lexeme.unbracketed_of_isPlain h⟩
    have hsplit : unplaced ((f :: fs).flatMap fun f => f.code ++ [.impliedSemi]) =
        unplaced f.code ++ ⟨.semi, [], 0⟩ :: unplaced (fs.flatMap fun f => f.code ++ [.impliedSemi]) := by
      simp [unplaced, Lexeme.impliedSemi]
    rw [hsplit, fieldSegments_append rfl hplain, ih]
    rfl

lemma statementPart_fields (fs : List FieldLine) :
    statementPart false (fs.flatMap FieldLine.lexemes) = fs.flatMap (fun f => f.code ++ [.impliedSemi]) ∧
      endingBehind false (fs.flatMap FieldLine.lexemes) = false := by
  induction fs with
  | nil => exact ⟨rfl, rfl⟩
  | cons f fs ih =>
    obtain ⟨hpart, hend⟩ := f.statementPart_lexemes
    rw [List.flatMap_cons, List.flatMap_cons, statementPart_append, endingBehind_append, hpart, hend, ih.1, ih.2]
    exact ⟨rfl, rfl⟩

/-- The lines of a printed type are read as the fields that they declare. -/
lemma fields_code (t : StructType) : Source.fields (unplaced t.fieldsCode) = .ok (t.fields.map FieldLine.field) := by
  have hread : ∀ fs : List FieldLine, (fs.map (fun f : FieldLine => unplaced f.code) ++ [[]]).mapM field? =
      .ok (fs.map (fun f : FieldLine => some f.field) ++ [none]) := by
    intro fs
    induction fs with
    | nil => rfl
    | cons f fs ih =>
      rw [List.map_cons, List.cons_append, List.mapM_cons, bind_ok f.field?_code, bind_ok ih]
      rfl
  rw [Source.fields, fieldsCode, fieldSegments_code, hread]
  simp [Except.map]

lemma declKind_of_struct {word name struct o close semi : Token} {inner rest : List Token} {fs : List Field}
    (hword : word.kind = .typeWord) (hname : name.kind = .ident) (hstruct : struct.kind = .structWord) (ho : o.kind = .lbrace)
    (hinner : cutGroup? 0 (inner ++ close :: semi :: rest) = some (inner, close, semi :: rest)) (hsemi : semi.kind = .semi)
    (hfields : Source.fields inner = .ok fs) :
    (Cursor.mk b (word :: name :: struct :: o :: (inner ++ close :: semi :: rest))).declKind =
      .ok (.types [⟨name.text, some fs⟩], ⟨close.stop, semi :: rest⟩) := by
  have hbehind : (Cursor.mk name.stop (struct :: o :: (inner ++ close :: semi :: rest))).kind? = some .structWord := by
    simp [Cursor.kind?, hstruct]
  have hread : (Cursor.mk name.stop (struct :: o :: (inner ++ close :: semi :: rest))).structFields? =
      .ok (some fs, ⟨close.stop, semi :: rest⟩) := by
    simp [Cursor.structFields?, hbehind, Cursor.kindAt?, ho, Cursor.advance, Cursor.group, hinner, hfields, Except.map]
  have hspec : (Cursor.mk word.stop (name :: struct :: o :: (inner ++ close :: semi :: rest))).typeSpec =
      .ok (⟨name.text, some fs⟩, ⟨close.stop, semi :: rest⟩) := by
    refine Cursor.typeSpec_eq_ok_iff.2 ⟨name, ⟨name.stop, struct :: o :: (inner ++ close :: semi :: rest)⟩,
      ⟨name.stop, struct :: o :: (inner ++ close :: semi :: rest)⟩, some fs, ⟨close.stop, semi :: rest⟩,
      Cursor.expect_eq_ok_iff.2 ⟨rfl, hname, rfl⟩, ?_, ?_, skipStatement_stop (.inr (.inl ?_)), rfl⟩
    · simp [Cursor.atTypeParameters, hbehind, Cursor.groupIf]
    · simpa [Cursor.skip, hbehind] using hread
    · simp [Cursor.kind?, hsemi]
  have hone : oneOrGroup typeItem typeItem .typeGroupEnd (Cursor.mk word.stop (name :: struct :: o :: (inner ++ close :: semi :: rest))) =
      .ok (([⟨name.text, some fs⟩], false), ⟨close.stop, semi :: rest⟩) := by
    have hk : (Cursor.mk word.stop (name :: struct :: o :: (inner ++ close :: semi :: rest))).kind? ≠ some .lparen := by
      simp [Cursor.kind?, hname]
    have hitem : typeItem.read (Cursor.mk word.stop (name :: struct :: o :: (inner ++ close :: semi :: rest))) = _ := hspec
    rw [oneOrGroup, if_neg hk, hitem]
    rfl
  simp [Cursor.declKind, Cursor.kind?, hword, Cursor.advance, hone, Except.map]

/-- **A printed type is a section** that is read as the type. -/
theorem isSection (t : StructType) : IsSection t.text [.types [t.spec]] := by
  have hlex := t.lex_text
  have hplain : (t.fields.flatMap FieldLine.lexemes).all Lexeme.isPlain := by
    rw [List.all_flatMap]
    exact List.all_eq_true.2 fun f _ => f.all_isPlain
  have hinner : ∀ u ∈ unplaced t.fieldsCode, u.kind.isOpen = false ∧ u.kind.isClose = false := by
    intro u hu
    obtain ⟨l, hl, rfl⟩ := List.mem_map.1 hu
    obtain ⟨f, -, hl⟩ := List.mem_flatMap.1 hl
    rcases List.mem_append.1 hl with hl | hl
    · exact Lexeme.unbracketed_of_isPlain (List.all_eq_true.1 f.all_isPlain_code l hl)
    · rw [List.mem_singleton.1 hl]
      exact ⟨rfl, rfl⟩
  have hread := @declKind_of_struct 0 ⟨.typeWord, "type", 0⟩ ⟨.ident, t.name.text, 0⟩ ⟨.structWord, "struct", 0⟩
    ⟨.lbrace, ['\x7b'], 0⟩ ⟨.rbrace, ['\x7d'], 0⟩ (.impliedSemi 0) _ [] _ rfl rfl rfl rfl (cutGroup?_of_flat hinner rfl rfl) rfl
    t.fields_code
  have hpart : statementPart false (lex t.text) =
      (unplaced (t.headCode ++ (t.fieldsCode ++ [⟨.rbrace, ['\x7d']⟩]))).map Token.lexeme ++ [.impliedSemi] := by
    obtain ⟨hfields, hend⟩ := statementPart_fields t.fields
    have hhead : statementPart false [⟨.typeWord, "type"⟩, ⟨.blank, [' ']⟩, ⟨.ident, t.name.text⟩, ⟨.blank, [' ']⟩,
        ⟨.structWord, "struct"⟩, ⟨.blank, [' ']⟩, ⟨.lbrace, ['\x7b']⟩, ⟨.newline, ['\n']⟩] = t.headCode := rfl
    have hhead' : endingBehind false [⟨.typeWord, "type"⟩, ⟨.blank, [' ']⟩, ⟨.ident, t.name.text⟩, ⟨.blank, [' ']⟩,
        ⟨.structWord, "struct"⟩, ⟨.blank, [' ']⟩, ⟨.lbrace, ['\x7b']⟩, ⟨.newline, ['\n']⟩] = false := rfl
    rw [map_lexeme_unplaced, hlex, statementPart_append, statementPart_append, endingBehind_append, hhead, hhead', hfields, hend,
      List.append_assoc, List.append_assoc, List.append_assoc]
    rfl
  refine isSection_of_declKind ?_ ?_ ?_ hpart rfl ?_ rfl hread rfl
  · rw [isWhole, hlex, List.all_append, List.all_append,
      List.all_eq_true.2 fun l hl => Lexeme.isSound_of_isPlain (List.all_eq_true.1 hplain l hl)]
    rfl
  · rw [hlex, List.getLast?_append]
    rfl
  · rw [hlex, List.append_assoc]
    show isBalanced [.lbrace] (t.fields.flatMap FieldLine.lexemes ++ [⟨.rbrace, ['\x7d']⟩, ⟨.newline, ['\n']⟩]) = true
    rw [isBalanced_append (isBalanced_of_unbracketed fun l hl => Lexeme.unbracketed_of_isPlain (List.all_eq_true.1 hplain l hl))]
    rfl
  · simp [unplaced, headCode]

end StructType

/-! ### Files -/

/-- The lexemes of a package clause. -/
def packageLexemes (package : Identifier) : List Lexeme :=
  [⟨.packageWord, "package"⟩, ⟨.blank, [' ']⟩, ⟨.ident, package.text⟩, ⟨.newline, ['\n']⟩]

lemma lex_package (package : Identifier) (t : Text) :
    lex ("package ".toList ++ (package.text ++ '\n' :: t)) = packageLexemes package ++ lex t := by
  have hword : lex "package ".toList = [⟨.packageWord, "package"⟩, ⟨.blank, [' ']⟩] := by decide +kernel
  have hblank : Lexeme.precedes ⟨.blank, [' ']⟩ (package.text ++ '\n' :: t) := Identifier.precedes_append
  rw [lex_append_of_eq hword (by decide) hblank, Identifier.lex_append (by rfl), lex_newline]
  rfl

/-- A package clause with a section behind it is a file without imports, if the section is empty or begins with a type. -/
lemma exists_parse_of_types {package : Identifier} {t : Text} {shapes : List DeclKind} (ht : IsSection t shapes)
    (hfirst : ∀ l ∈ (statementPart false (lex t)).head?, l.kind = .typeWord) :
    ∃ tree, parse ("package ".toList ++ (package.text ++ '\n' :: t)) = .ok tree ∧ tree.package.name = package.text ∧
      tree.decls.map (·.kind.shape) = shapes := by
  generalize hs : "package ".toList ++ (package.text ++ '\n' :: t) = s
  have hlex : lex s = packageLexemes package ++ lex t := by rw [← hs, lex_package]
  have hstatements : (statementTokens s).map Token.lexeme =
      [⟨.packageWord, "package"⟩, ⟨.ident, package.text⟩, .impliedSemi] ++ statementPart false (lex t) := by
    have hclause : statementPart false (packageLexemes package) =
        [⟨.packageWord, "package"⟩, ⟨.ident, package.text⟩, .impliedSemi] := rfl
    have hend : endingBehind false (packageLexemes package) = false := rfl
    rw [map_lexeme_statementTokens, hlex, statementLexemes_append, hclause, hend, statementLexemes, ht.ended]
    simp
  obtain ⟨head, us, hsplit, hhead, hus⟩ := List.map_eq_append_iff.1 hstatements
  obtain ⟨keyword, rest, rfl, hkeyword, hrest⟩ := List.map_eq_cons_iff.1 hhead
  obtain ⟨name, rest, rfl, hname, hrest⟩ := List.map_eq_cons_iff.1 hrest
  obtain ⟨semi, rfl, hsemi⟩ := List.map_eq_singleton_iff.1 hrest
  have hkind : ∀ {t : Token} {l : Lexeme}, t.lexeme = l → t.kind = l.kind := fun h => congrArg Lexeme.kind h
  have hpast : ∀ (n : Nat) (us : List Token), us.map Token.lexeme = statementPart false (lex t) →
      (Cursor.mk n us).pastSemis = Cursor.mk n us ∧ (Cursor.mk n us).kind? ≠ some .importWord := by
    intro n us hus
    rcases us with _ | ⟨u, us⟩
    · exact ⟨rfl, by simp [Cursor.kind?]⟩
    · have hu : u.kind = .typeWord := hfirst u.lexeme (by rw [← hus]; rfl)
      exact ⟨by simp [Cursor.pastSemis, hu], by simp [Cursor.kind?, hu]⟩
  obtain ⟨hself, himport⟩ := hpast semi.stop us hus
  obtain ⟨ds, c', hc', hds, hshapes⟩ := ht.decls ⟨semi.stop, us⟩ us [] (by simp) hus
  have hdecls : (Cursor.mk semi.stop us).decls = .ok ds := by
    rw [hds, Cursor.decls, if_pos (by simp [Cursor.pastSemis, Cursor.kind?, hc'])]
    simp [Except.map]
  have hfile : (Cursor.mk 0 (statementTokens s)).file = .ok ⟨⟨name.text, ⟨keyword.start, name.stop⟩⟩, [], ds⟩ := by
    have hstart : (Cursor.mk 0 (keyword :: name :: semi :: us)).pastSemis = Cursor.mk 0 (keyword :: name :: semi :: us) := by
      simp [Cursor.pastSemis, hkind hkeyword]
    rw [hsplit]
    refine Cursor.file_eq_ok_iff.2 ⟨_, ⟨semi.stop, us⟩, [], ⟨semi.stop, us⟩, ds, ?_, imports_of_stop ?_, hdecls, rfl⟩
    · show (Cursor.mk 0 (keyword :: name :: semi :: us)).pastSemis.packageClause = _
      rw [hstart]
      exact Cursor.packageClause_of_kinds (hkind hkeyword) (hkind hname) (hkind hsemi)
    · rw [hself]
      exact himport
  have hwhole : isWhole s := by
    have htail : (lex t).all Lexeme.isSound := ht.whole
    rw [isWhole, hlex, List.all_append, htail]
    rfl
  have hbalanced : isBalanced [] (lex s) := by
    rw [hlex]
    exact ht.balanced
  refine ⟨_, parse_of_file hwhole hbalanced hfile, congrArg Lexeme.text hname, ?_⟩
  rw [Tree.withComments, List.map_map]
  exact hshapes

/-- **Printed types are read.**  A file of printed types has a tree with these types. -/
theorem exists_parse_printed (package : Identifier) (types : List StructType) :
    ∃ tree, parse (printedFile package types) = .ok tree ∧ tree.package.name = package.text ∧
      tree.decls.map (·.kind.shape) = types.map fun t => .types [t.spec] := by
  have hsection : IsSection (types.flatMap fun t => '\n' :: t.text) (types.map fun t => .types [t.spec]) :=
    IsSection.flatMap fun t _ => IsSection.newline.append t.isSection
  refine exists_parse_of_types hsection fun l hl => ?_
  cases types with
  | nil =>
    rw [List.flatMap_nil, lex_nil] at hl
    cases hl
  | cons t types =>
    rw [List.flatMap_cons, List.cons_append, lex_newline, t.isSection.closed, t.lex_text] at hl
    cases hl
    rfl

end RuleWeaver.Source
