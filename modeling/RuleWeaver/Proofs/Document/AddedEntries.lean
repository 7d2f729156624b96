import RuleWeaver.Proofs.Document.GrowingMaps
import RuleWeaver.Proofs.Source.Nesting
import RuleWeaver.Proofs.Source.PrintedStructs

/-!
# Entries that are added between braces

Where a map literal that gains entries stands in place of two braces of a text, the code of the text stays, and the code of
the entries goes in front of the closing brace (`BracePair.grow_adds_entries`).  A comma goes in front of it exactly if the
code between the braces does not end in one.  What is put in is split up by itself: the brace in front of it is a lexeme
whatever follows it, and behind the old body a line break begins.
-/

namespace RuleWeaver

open Source
open Text (quote)

variable {s w : Text} {L K : List Lexeme} {l : Lexeme}

/-! ### What is added -/

/-- Names with dots between them. -/
structure DottedName where
  first : Identifier
  rest : List Identifier

namespace DottedName

def text (n : DottedName) : Text := n.first.text ++ n.rest.flatMap fun i => '.' :: i.text

def code (n : DottedName) : List Lexeme := ⟨.ident, n.first.text⟩ :: n.rest.flatMap fun i => [⟨.dot, ['.']⟩, ⟨.ident, i.text⟩]

end DottedName

/-- What a new entry maps to. -/
inductive NewValue
  | name (n : DottedName)
  | string (s : Text)

/-- A new entry of a map literal. -/
structure NewEntry where
  key : Text
  value : NewValue

def NewValue.entryValue : NewValue → EntryValue
  | name n => .name n.text
  | string s => .string s

def NewValue.code : NewValue → List Lexeme
  | name n => n.code
  | string s => [⟨.string, quote s⟩]

def NewEntry.entry (e : NewEntry) : Text × EntryValue := (e.key, e.value.entryValue)

/-- The code of an entry: a literal, a colon, the value and a comma. -/
def NewEntry.code (e : NewEntry) : List Lexeme :=
  ⟨.string, quote e.key⟩ :: ⟨.operator, [':']⟩ :: (e.value.code ++ [⟨.comma, [',']⟩])

/-- The comma that is missing behind code: none if there is no code or it ends in a comma. -/
def separator (code : List Lexeme) : List Lexeme :=
  match code.getLast? with
  | some l => if l.kind = .comma then [] else [⟨.comma, [',']⟩]
  | none => []

/-- Two braces that match, among the tokens of a text. -/
structure BracePair (s : Text) where
  front : List Token
  opening : Token
  inner : List Token
  closing : Token
  behind : List Token
  tokens : tokenize s = .ok (front ++ opening :: (inner ++ closing :: behind))
  isOpening : opening.kind = .lbrace
  isClosing : closing.kind = .rbrace
  nested : WellNested (bracketKinds (inner.map Token.lexeme))

namespace BracePair

/-- The text between the braces. -/
def body (p : BracePair s) : Text := Text.slice s p.opening.stop p.closing.start

/-- The text in which the literal between the braces has gained entries. -/
def grow (p : BracePair s) (entries : List NewEntry) : Text :=
  ((Document.ofText s).replace ⟨p.opening.start, p.closing.stop⟩ (.map ⟨p.body, entries.map NewEntry.entry⟩)).render

end BracePair

/-! ### Lexemes of the entries -/

namespace DottedName

lemma head?_flatMap {ids : List Identifier} : (ids.flatMap fun i => '.' :: i.text).head?.all (!isNameChar ·) := by
  cases ids <;> rfl

lemma lex_text (n : DottedName) : lex n.text = n.code := by
  obtain ⟨first, rest⟩ := n
  show lex (first.text ++ rest.flatMap fun i => '.' :: i.text) = _
  rw [Identifier.lex_append head?_flatMap]
  refine congrArg (_ :: ·) ?_
  induction rest with
  | nil => exact lex_nil
  | cons i rest ih =>
    rw [List.flatMap_cons, List.flatMap_cons, List.cons_append, lex_dot_name, Identifier.lex_append head?_flatMap, ih]
    rfl

lemma all_isPathChar (n : DottedName) : n.text.all isPathChar := by
  have hname : ∀ i : Identifier, i.text.all isPathChar := by
    intro i
    obtain ⟨c, s, ht, hc, hs, -⟩ := i.exists_cons
    rw [ht, List.all_cons, isPathChar, isNameChar, decide_eq_true (Or.inl hc), Bool.true_or, Bool.true_and, List.all_eq_true]
    intro d hd
    rw [isPathChar, List.all_eq_true.1 hs d hd, Bool.true_or]
  rw [text, List.all_append, hname, Bool.true_and, List.all_flatMap, List.all_eq_true]
  intro i _
  rw [List.all_cons, hname, Bool.and_true]
  rfl

lemma text_ne_nil (n : DottedName) : n.text ≠ [] := by
  obtain ⟨c, s, ht, -⟩ := n.first.exists_cons
  simp [text, ht]

end DottedName

namespace NewEntry

lemma isPlain (e : NewEntry) : GrowingMap.IsPlain e.entry := by
  obtain ⟨key, value⟩ := e
  cases value with
  | name n => exact ⟨n.text_ne_nil, n.all_isPathChar⟩
  | string s => trivial

lemma arePlain (entries : List NewEntry) : ∀ e ∈ entries.map entry, GrowingMap.IsPlain e := by
  rw [List.forall_mem_map]
  exact fun e _ => e.isPlain

lemma significant_entryLexemes (e : NewEntry) : significant (GrowingMap.entryLexemes e.entry) = e.code := by
  have hvalue : significant (GrowingMap.valueLexemes e.value.entryValue) = e.value.code := by
    cases e.value with
    | name n =>
      show significant (lex n.text) = n.code
      rw [n.lex_text]
      refine significant_eq_self fun l hl => ?_
      rcases List.mem_cons.1 hl with rfl | hl
      · rfl
      · obtain ⟨i, -, hl⟩ := List.mem_flatMap.1 hl
        rcases List.mem_pair.1 hl with rfl | rfl <;> rfl
    | string s => rfl
  rw [GrowingMap.entryLexemes, significant_append, significant_append, entry, hvalue]
  rfl

/-- The code of the entries is that of their lexemes. -/
lemma significant_entries (entries : List NewEntry) :
    significant ((entries.map entry).flatMap GrowingMap.entryLexemes) = entries.flatMap code := by
  rw [significant, List.filter_flatMap, List.flatMap_map]
  exact List.flatMap_congr fun e _ => significant_entryLexemes e

end NewEntry

/-! ### The code between the braces -/

lemma not_isNameChar_of_isSpace {c : Char} (hc : Unicode.isSpace c) (hascii : c.toNat < 0x80) : isNameChar c = false := by
  have hmem := Detection.isSpace_toNat hc
  have heq : c = Char.ofNat c.toNat := (Char.ofNat_toNat c).symm
  generalize c.toNat = n at hmem heq hascii
  subst heq
  simp only [List.mem_cons, List.not_mem_nil, or_false] at hmem
  have hsmall : n = 9 ∨ n = 10 ∨ n = 11 ∨ n = 12 ∨ n = 13 ∨ n = 32 := by omega
  rcases hsmall with rfl | rfl | rfl | rfl | rfl | rfl <;> decide

/-- White space of ASCII ends no name, so the code in front of it stays when it goes. -/
lemma significant_eq_of_ascii (hL : IsLexed L) (h : Trimmed L K) (hw : joined L = joined K ++ w) (hspace : w.all Unicode.isSpace)
    (hascii : ∀ c ∈ w, c.toNat < 0x80) : significant L = significant K := by
  refine h.significant_eq hw fun l hl hk => ?_
  have hword : l.kind.isWord := by
    rw [hk]
    fun_cases wordKind l.text <;> rfl
  obtain ⟨-, hall, -⟩ := word_of_lex (lex_text_of_mem (s := joined L) (by rwa [hL.1]) (hL.2 l hl)) hword
  have hne : l.text ≠ [] := Source.text_ne_nil (s := joined L) (by rwa [hL.1])
  refine ⟨_, List.getLast_mem_getLast? hne, fun hmem => ?_⟩
  have hname := List.all_eq_true.1 hall _ (List.getLast_mem hne)
  rw [not_isNameChar_of_isSpace (List.all_eq_true.1 hspace _ hmem) (hascii _ hmem)] at hname
  cases hname

/-- What is balanced does not end in a bracket that opens. -/
lemma isOpen_getLast?_of_isBalanced (h : isBalanced [] L) (hl : l ∈ L.getLast?) : l.kind.isOpen = false := by
  obtain ⟨xs, rfl⟩ := List.getLast?_eq_some_iff.1 hl
  obtain ⟨stack, hstack⟩ := exists_isBalanced_right h
  by_contra ho
  rw [Bool.not_eq_false] at ho
  simp [isBalanced, ho] at hstack

/-- **The comma.**  Code that gains a comma has one behind it exactly if one is missing. -/
lemma GainsComma.significant_eq_append (h : GainsComma K L) (hb : isBalanced [] (significant K)) :
    significant L = significant K ++ separator (significant K) := by
  rcases h.significant_eq with ⟨heq, hlast⟩ | ⟨heq, l, hl, hne⟩
  · rw [heq, separator]
    cases hend : (significant K).getLast? with
    | none => rw [List.append_nil]
    | some l =>
      have hcomma : l.kind = .comma := (hlast l hend).resolve_right fun hbrace => by
        have := isOpen_getLast?_of_isBalanced hb hend
        rw [hbrace] at this
        cases this
      dsimp only
      rw [if_pos hcomma, List.append_nil]
  · rw [heq, separator, Option.mem_def.1 hl]
    dsimp only
    rw [if_neg hne]

/-! ### The text with the entries -/

/-- Blanks are no code. -/
lemma significant_filter_blank {ts : List Token} :
    significant ((ts.filter (·.kind ≠ .blank)).map Token.lexeme) = significant (ts.map Token.lexeme) := by
  simp only [significant, List.filter_map, List.filter_filter]
  refine congrArg (List.map Token.lexeme) (List.filter_congr fun t _ => ?_)
  show (t.kind.isSignificant && decide (t.kind ≠ .blank)) = t.kind.isSignificant
  cases t.kind <;> rfl

/-- What is kept of a list is cut where the list is cut. -/
lemma exists_cut_of_filter_eq {α : Type} {p : α → Bool} {xs as bs : List α} {x : α} (h : xs.filter p = as ++ x :: bs) :
    ∃ ys zs, xs = ys ++ x :: zs ∧ ys.filter p = as ∧ zs.filter p = bs := by
  obtain ⟨ys, rest, rfl, hys, hrest⟩ := List.filter_eq_append_iff.1 h
  obtain ⟨gap, zs, rfl, hgap, -, hzs⟩ := List.filter_eq_cons_iff.1 hrest
  refine ⟨ys ++ gap, zs, by simp, ?_, hzs⟩
  rw [List.filter_append, hys, List.filter_eq_nil_iff.2 hgap, List.append_nil]

namespace BracePair

/-- The lexemes of a text around two braces and between them. -/
structure Code (p : BracePair s) where
  front : List Lexeme
  body : List Lexeme
  behind : List Lexeme
  lexemes : lex s = front ++ ⟨.lbrace, ['{']⟩ :: (body ++ ⟨.rbrace, ['}']⟩ :: behind)
  start : p.opening.start = (joined front).width
  bodyStart : p.opening.stop = (joined front).width + 1
  bodyStop : p.closing.start = (joined front).width + 1 + (joined body).width
  stop : p.closing.stop = (joined front).width + 1 + (joined body).width + 1
  code_front : significant ((p.front ++ p.opening :: p.inner).map Token.lexeme) = significant (front ++ ⟨.lbrace, ['{']⟩ :: body)
  code_inner : significant (p.inner.map Token.lexeme) = significant body
  code_behind : significant ((p.closing :: p.behind).map Token.lexeme) = significant (⟨.rbrace, ['}']⟩ :: behind)

lemma exists_code (p : BracePair s) : Nonempty p.Code := by
  obtain ⟨-, -, hfilter⟩ := tokenize_eq_ok_iff.1 p.tokens
  obtain ⟨A, R, hs, hA, hR⟩ := exists_cut_of_filter_eq hfilter.symm
  obtain ⟨B, C, rfl, hB, hC⟩ := exists_cut_of_filter_eq hR
  have hs' : Source.tokens s = (A ++ p.opening :: B) ++ p.closing :: C := by rw [hs, List.append_assoc, List.cons_append]
  have hopen : p.opening.text = ['{'] := text_of_bracket (l := p.opening.lexeme) (lexeme_mem_lex (by rw [hs]; simp))
    (by rw [Token.lexeme_kind, p.isOpening]; rfl)
  have hclose : p.closing.text = ['}'] := text_of_bracket (l := p.closing.lexeme) (lexeme_mem_lex (by rw [hs]; simp))
    (by rw [Token.lexeme_kind, p.isClosing]; rfl)
  have ho : p.opening.lexeme = ⟨.lbrace, ['{']⟩ := by rw [Token.lexeme, p.isOpening, hopen]
  have hc : p.closing.lexeme = ⟨.rbrace, ['}']⟩ := by rw [Token.lexeme, p.isClosing, hclose]
  have hstart := start_of_tokens_eq hs
  have hstop : p.closing.start = (joined (A.map Token.lexeme)).width + 1 + (joined (B.map Token.lexeme)).width := by
    rw [start_of_tokens_eq hs', List.map_append, List.map_cons, ho]
    have hbrace : ('{' : Char).utf8Size = 1 := rfl
    simp only [joined_append, joined_cons, Text.width_append, Text.width_cons, Text.width_nil, hbrace]
    omega
  refine ⟨⟨A.map Token.lexeme, B.map Token.lexeme, C.map Token.lexeme, ?_, hstart, ?_, hstop, ?_, ?_, ?_, ?_⟩⟩
  · rw [← map_lexeme_tokens, hs, List.map_append, List.map_cons, List.map_append, List.map_cons, ho, hc]
  · rw [Token.stop, hstart, hopen]
    rfl
  · rw [Token.stop, hstop, hclose]
    rfl
  · rw [← hA, ← hB, List.map_append, List.map_cons, ho, significant_append, significant_filter_blank, significant_append,
      significant_cons_pos (by rfl), significant_cons_pos (by rfl), significant_filter_blank]
  · rw [← hB, significant_filter_blank]
  · rw [← hC, List.map_cons, hc, significant_cons_pos (by rfl), significant_cons_pos (by rfl), significant_filter_blank]

namespace Code

variable {p : BracePair s} (k : p.Code) (entries : List NewEntry)

lemma source_eq : s = joined k.front ++ ('{' :: (joined k.body ++ ['}']) ++ joined k.behind) := by
  conv_lhs => rw [← joined_lex (s := s), k.lexemes]
  simp

lemma body_eq : p.body = joined k.body := by
  have hwidth : (joined k.front ++ ['{']).width = (joined k.front).width + 1 := Text.width_append _ _
  have hsplit : (joined k.front ++ ['{']) ++ (joined k.body ++ '}' :: joined k.behind) = s := Eq.trans (by simp) k.source_eq.symm
  have hslice := @Text.slice_width_append (joined k.front ++ ['{']) (joined k.body) ('}' :: joined k.behind)
  rw [hwidth, hsplit] at hslice
  rw [BracePair.body, k.bodyStart, k.bodyStop, hslice]

lemma grow_eq : p.grow entries =
    joined k.front ++ (GrowingMap.render ⟨joined k.body, entries.map NewEntry.entry⟩ ++ joined k.behind) := by
  have hspan : (⟨p.opening.start, p.closing.stop⟩ : Span) =
      ⟨(joined k.front).width, (joined k.front ++ '{' :: (joined k.body ++ ['}'])).width⟩ := by
    have h₁ : ('{' : Char).utf8Size = 1 := rfl
    have h₂ : ('}' : Char).utf8Size = 1 := rfl
    rw [k.start, k.stop, Span.mk.injEq]
    simp only [Text.width_append, Text.width_cons, Text.width_nil, h₁, h₂, true_and]
    omega
  have hrender := @Document.render_replace ('{' :: (joined k.body ++ ['}'])) (joined k.behind) (joined k.front)
    (.map ⟨joined k.body, entries.map NewEntry.entry⟩)
  rw [← k.source_eq] at hrender
  rw [grow, k.body_eq, hspan, hrender, Node.render]

lemma isLexed_behindOpening (hs : isWhole s) : IsLexed (k.body ++ ⟨.rbrace, ['}']⟩ :: k.behind) :=
  IsLexed.right (A := [⟨.lbrace, ['{']⟩]) (isLexed_of_lex k.lexemes hs).right

lemma isLexed_body (hs : isWhole s) : IsLexed k.body := (k.isLexed_behindOpening hs).left

lemma isBalanced_body : isBalanced [] k.body := by
  rw [← isBalanced_significant_eq, ← k.code_inner, isBalanced_significant_eq]
  exact isBalanced_iff_wellNested.2 p.nested

/-- The old body as it is written again, and the new entries. -/
def grown : List Lexeme := lex (GrowingMap.renderBody (joined k.body)) ++
  ⟨.newline, ['\n']⟩ :: (entries.map NewEntry.entry).flatMap GrowingMap.entryLexemes

/-- **The lexemes with the entries.** -/
lemma lex_grow (hs : isWhole s) :
    lex (p.grow entries) = k.front ++ ⟨.lbrace, ['{']⟩ :: (k.grown entries ++ ⟨.rbrace, ['}']⟩ :: k.behind) := by
  have hbehind : IsLexed k.behind := IsLexed.right (A := [⟨.rbrace, ['}']⟩]) (k.isLexed_behindOpening hs).right
  obtain ⟨w, hw⟩ : ∃ w, GrowingMap.render ⟨joined k.body, entries.map NewEntry.entry⟩ ++ joined k.behind = '{' :: w := ⟨_, rfl⟩
  have hgrown := lex_growingMap (z := joined k.behind) (lex_renderBody (k.isLexed_body hs).isWhole).1 (NewEntry.arePlain entries)
  -- whatever follows it, the brace leaves the lexemes in front of it as they are
  have hfront := lex_joined_append (d := '{') (z := w) (by decide) k.lexemes rfl (isLexed_of_lex k.lexemes hs).left.2
  rw [k.grow_eq, hw, hfront, ← hw, hgrown, hbehind.1, grown]
  simp only [List.append_assoc, List.cons_append]

lemma isSound_of_mem_grown (hs : isWhole s) : ∀ l ∈ k.grown entries, l.isSound := by
  intro l hl
  rw [grown, List.mem_append, List.mem_cons] at hl
  rcases hl with hl | rfl | hl
  · exact isWhole_iff.1 (lex_renderBody (k.isLexed_body hs).isWhole).1 l hl
  · rfl
  · have := List.all_eq_true.1 (GrowingMap.isFlat_entries (NewEntry.arePlain entries)) l hl
    simp only [GrowingMap.isFlat, Bool.and_eq_true] at this
    exact this.1.1.1

include k in
lemma isWhole_grow (hs : isWhole s) : isWhole (p.grow entries) := by
  have hsound := isWhole_iff.1 hs
  rw [isWhole_iff, k.lex_grow entries hs]
  rw [k.lexemes] at hsound
  intro l hl
  simp only [List.mem_append, List.mem_cons] at hl
  rcases hl with hl | rfl | hl | rfl | hl
  · exact hsound l (by simp [hl])
  · rfl
  · exact k.isSound_of_mem_grown entries hs l hl
  · rfl
  · exact hsound l (by simp [hl])

lemma isBalanced_grown (hs : isWhole s) : isBalanced [] (k.grown entries) := by
  obtain ⟨-, K, htrim, hcomma⟩ := lex_renderBody (k.isLexed_body hs).isWhole
  rw [(k.isLexed_body hs).1] at htrim
  have hbody : isBalanced [] (lex (GrowingMap.renderBody (joined k.body))) := by
    rw [hcomma.isBalanced_eq, ← htrim.isBalanced_eq]
    exact k.isBalanced_body
  rw [grown, isBalanced_append hbody]
  simpa [isBalanced, Kind.isOpen, Kind.isClose] using
    GrowingMap.isBalanced_of_flat (GrowingMap.isFlat_entries (NewEntry.arePlain entries))

include k in
/-- The brackets around the entries match as they did. -/
lemma isBalanced_grow (hs : isWhole s) (hb : isBalanced [] (lex s)) : isBalanced [] (lex (p.grow entries)) := by
  have hinner : ∀ {L : List Lexeme}, isBalanced [] L → ∀ stack,
      isBalanced stack (⟨.lbrace, ['{']⟩ :: (L ++ ⟨.rbrace, ['}']⟩ :: k.behind)) = isBalanced stack k.behind := by
    intro L hL stack
    simp [isBalanced, Kind.isOpen, Kind.isClose, Kind.closer?, isBalanced_append hL]
  have hsame : ∀ stack, isBalanced stack (⟨.lbrace, ['{']⟩ :: (k.grown entries ++ ⟨.rbrace, ['}']⟩ :: k.behind)) =
      isBalanced stack (⟨.lbrace, ['{']⟩ :: (k.body ++ ⟨.rbrace, ['}']⟩ :: k.behind)) := by
    intro stack
    rw [hinner (k.isBalanced_grown entries hs), hinner k.isBalanced_body]
  rwa [k.lex_grow entries hs, isBalanced_congr hsame, ← k.lexemes]

/-- The code between the braces is the old one, with a comma where one is missing, and that of the entries. -/
lemma significant_grown (hs : isWhole s) (h : ∀ c ∈ p.body.spaceAtEnd, c.toNat < 0x80) :
    significant (k.grown entries) = significant k.body ++ (separator (significant k.body) ++ entries.flatMap NewEntry.code) := by
  obtain ⟨-, K, htrim, hcomma⟩ := lex_renderBody (k.isLexed_body hs).isWhole
  rw [(k.isLexed_body hs).1] at htrim
  obtain ⟨w, hw, hspace⟩ := htrim.exists_joined
  have hascii : ∀ c ∈ w, c.toNat < 0x80 := by
    rw [k.body_eq, hw] at h
    exact fun c hc => h c (Text.mem_spaceAtEnd hspace hc)
  have hbalanced : isBalanced [] (significant K) := by
    rw [isBalanced_significant_eq, ← htrim.isBalanced_eq]
    exact k.isBalanced_body
  have hbody := significant_eq_of_ascii (k.isLexed_body hs) htrim hw hspace hascii
  rw [grown, significant_append, significant_cons_neg (by rfl), hcomma.significant_eq_append hbalanced, hbody,
    NewEntry.significant_entries, List.append_assoc]

end Code

/-- **Entries that are added.**  With a literal that gains entries in place of two braces that match, where the white space in
front of the closing brace is ASCII, a text has tokens.  Its code is that of the text with the code of the entries in front of
the closing brace, behind a comma where one is missing. -/
theorem grow_adds_entries (p : BracePair s) (entries : List NewEntry) (h : ∀ c ∈ p.body.spaceAtEnd, c.toNat < 0x80) :
    ∃ us, tokenize (p.grow entries) = .ok us ∧ significant (us.map Token.lexeme) =
      significant ((p.front ++ p.opening :: p.inner).map Token.lexeme) ++
        (separator (significant (p.inner.map Token.lexeme)) ++ entries.flatMap NewEntry.code) ++
          significant ((p.closing :: p.behind).map Token.lexeme) := by
  obtain ⟨k⟩ := p.exists_code
  obtain ⟨hwhole, hbalanced, -⟩ := tokenize_eq_ok_iff.1 p.tokens
  refine ⟨_, tokenize_eq_ok_iff.2 ⟨k.isWhole_grow entries hwhole, k.isBalanced_grow entries hwhole hbalanced, rfl⟩, ?_⟩
  have hopen : Kind.isSignificant .lbrace := rfl
  rw [significant_filter_blank, map_lexeme_tokens, k.lex_grow entries hwhole, k.code_front, k.code_inner, k.code_behind,
    significant_append, significant_append, significant_cons_pos (l := ⟨.lbrace, ['{']⟩) hopen,
    significant_cons_pos (l := ⟨.lbrace, ['{']⟩) hopen, significant_append, k.significant_grown entries hwhole h]
  simp only [List.append_assoc, List.cons_append]

end BracePair

/-- A literal whose last entry has no comma, but a comment behind it. -/
def openMap : Text := "m\x7ba: b // c\n \x7d"

/-- The braces of that literal. -/
def openMapPair : BracePair openMap where
  front := [⟨.ident, "m", 0⟩]
  opening := ⟨.lbrace, "\x7b", 1⟩
  inner := [⟨.ident, "a", 2⟩, ⟨.operator, ":", 3⟩, ⟨.ident, "b", 5⟩, ⟨.lineComment, "// c", 7⟩, ⟨.newline, "\n", 11⟩]
  closing := ⟨.rbrace, "\x7d", 13⟩
  behind := []
  tokens := by
    apply ok_of_toOption
    unfold openMap
    repeat rw [String.toList_ofList]
    decide +kernel
  isOpening := rfl
  isClosing := rfl
  nested := .nil

def newEntries : List NewEntry :=
  [⟨"k\"\\", .string "x\ny"⟩, ⟨"z", .name ⟨⟨"pkg", by decide⟩, [⟨"Fn", by decide⟩]⟩⟩]

/-- The comma goes behind the last entry, not behind the comment. -/
theorem openMap_gains_comma : (∀ c ∈ openMapPair.body.spaceAtEnd, c.toNat < 0x80) ∧
    ∃ us, tokenize (openMapPair.grow newEntries) = .ok us ∧ significant (us.map Token.lexeme) =
      [⟨.ident, "m"⟩, ⟨.lbrace, "\x7b"⟩, ⟨.ident, "a"⟩, ⟨.operator, ":"⟩, ⟨.ident, "b"⟩, ⟨.comma, ","⟩,
        ⟨.string, "\"k\\\"\\\\\""⟩, ⟨.operator, ":"⟩, ⟨.string, "\"x\\ny\""⟩, ⟨.comma, ","⟩,
        ⟨.string, "\"z\""⟩, ⟨.operator, ":"⟩, ⟨.ident, "pkg"⟩, ⟨.dot, "."⟩, ⟨.ident, "Fn"⟩, ⟨.comma, ","⟩, ⟨.rbrace, "\x7d"⟩] := by
  have hspace : openMapPair.body.spaceAtEnd = ['\n', ' '] := rfl
  have h : ∀ c ∈ openMapPair.body.spaceAtEnd, c.toNat < 0x80 := by
    rw [hspace]
    intro c hc
    rcases List.mem_pair.1 hc with rfl | rfl <;> decide
  obtain ⟨us, hus, hcode⟩ := openMapPair.grow_adds_entries newEntries h
  exact ⟨h, us, hus, hcode.trans rfl⟩

end RuleWeaver
