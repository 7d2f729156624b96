import RuleWeaver.Proofs.Detection.Methods
import RuleWeaver.Proofs.Registry.Parts
import RuleWeaver.Proofs.Source.Gaps
import RuleWeaver.Registry.Additions

/-!
# Methods that exist

A type gets no second `Validate` method when its method is written the plain way (`OpensPlainly`).  Methods are looked for
in the text and not in the tree, so other ways to write one, which the tree has as well, are missed
(`methods_found_iff`).
-/

namespace RuleWeaver

open Detection (MethodHead HasMethodHead IsWordText)
open Source
open Unicode (isSpace isWord)

variable {source : Text} {tree : Tree} {d : Decl} {ls : List Lexeme}

/-- Whether the lexemes of a declaration begin with the head of a `Validate` method without parameters that is written the
plain way: the receiver is a name of word characters, behind a star or not, and what precedes it is nothing, or a name of
word characters with white space or a comment behind it. -/
def OpensPlainly (type : Text) (ls tail : List Lexeme) : Prop :=
  ∃ g₀ g₁ named starred g₂ g₃ g₄ g₅, IsGapCode g₀ ∧ IsGapCode g₁ ∧ IsGapCode g₂ ∧ IsGapCode g₃ ∧ IsGapCode g₄ ∧ IsGapCode g₅ ∧
    (named = [] ∨ ∃ x g, x.all isWord ∧ IsGapCode g ∧ g ≠ [] ∧ named = ⟨.ident, x⟩ :: g) ∧
    (starred = [] ∨ ∃ g, IsGapCode g ∧ starred = ⟨.star, ['*']⟩ :: g) ∧ type.all isWord ∧
    ls = ⟨.funcWord, "func"⟩ :: (g₀ ++ ⟨.lparen, ['(']⟩ :: (g₁ ++ (named ++ (starred ++ ⟨.ident, type⟩ :: (g₂ ++ ⟨.rparen, [')']⟩ ::
      (g₃ ++ ⟨.ident, "Validate"⟩ :: (g₄ ++ ⟨.lparen, ['(']⟩ :: (g₅ ++ ⟨.rparen, [')']⟩ :: tail))))))))

section Heads

variable {type rest : Text} {named starred g tail behind : List Lexeme}

lemma code_of_not_isComment {k : Kind} {t : Text} (hk : k.isComment = false) : Lexeme.code ⟨k, t⟩ = t := by
  simp [Lexeme.code, hk]

lemma plainReceiver (hstarred : starred = [] ∨ ∃ g, IsGapCode g ∧ starred = ⟨.star, ['*']⟩ :: g) (hs : ∀ l ∈ starred, l ∈ lex source)
    (htype : IsWordText type) (hg : (codeOf g).all isSpace) :
    Detection.PlainReceiver type (codeOf starred ++ (type ++ (codeOf g ++ ')' :: rest))) rest := by
  rcases hstarred with rfl | ⟨g', hg', rfl⟩
  · exact ⟨[], [], codeOf g, .inl rfl, rfl, htype, hg, rfl⟩
  · refine ⟨['*'], codeOf g', codeOf g, .inr rfl, ?_, htype, hg, by rw [codeOf_cons, code_of_not_isComment rfl, List.append_assoc]⟩
    exact all_isSpace_codeOf_gap (fun l hl => hs l (List.mem_cons_of_mem _ hl)) hg'

lemma receiverHead (hnamed : named = [] ∨ ∃ x g, x.all isWord ∧ IsGapCode g ∧ g ≠ [] ∧ named = ⟨.ident, x⟩ :: g)
    (hs : ∀ l ∈ named, l ∈ lex source) {s : Text} (h : Detection.PlainReceiver type s rest) :
    Detection.ReceiverHead type (codeOf named ++ s) rest := by
  rcases hnamed with rfl | ⟨x, g, hx, hg, hne, rfl⟩
  · exact .inl h
  · have hmem : ∀ l ∈ g, l ∈ lex source := fun l hl => hs l (List.mem_cons_of_mem _ hl)
    refine .inr ⟨x, codeOf g, s, ⟨text_ne_nil (hs _ List.mem_cons_self), hx⟩, codeOf_ne_nil hmem hne, all_isSpace_codeOf_gap hmem hg,
      ?_, h⟩
    rw [codeOf_cons, code_of_not_isComment rfl, List.append_assoc]

/-- A head that is written the plain way is a head of the text. -/
lemma OpensPlainly.methodHead (h : OpensPlainly type ls tail) (hs : ∀ l ∈ ls, l ∈ lex source) :
    MethodHead type (codeOf (ls ++ behind)) (codeOf (tail ++ behind)) := by
  obtain ⟨g₀, g₁, named, starred, g₂, g₃, g₄, g₅, h₀, h₁, h₂, h₃, h₄, h₅, hnamed, hstarred, htype, rfl⟩ := h
  have gap : ∀ g, IsGapCode g → (∀ l ∈ g, l ∈ lex source) → (codeOf g).all isSpace := fun g hg hl => all_isSpace_codeOf_gap hl hg
  have htype' : IsWordText type := ⟨text_ne_nil (l := ⟨.ident, type⟩) (hs _ (by simp)), htype⟩
  obtain ⟨rest, hrest⟩ : ∃ rest, rest = codeOf g₃ ++ ("Validate".toList ++ (codeOf g₄ ++ '(' :: (codeOf g₅ ++ ')' ::
      codeOf (tail ++ behind)))) := ⟨_, rfl⟩
  have hreceiver : Detection.ReceiverHead type (codeOf named ++ (codeOf starred ++ (type ++ (codeOf g₂ ++ ')' :: rest)))) rest :=
    receiverHead hnamed (fun l hl => hs l (by simp [hl]))
      (plainReceiver hstarred (fun l hl => hs l (by simp [hl])) htype' (gap g₂ h₂ fun l hl => hs l (by simp [hl])))
  refine ⟨codeOf g₀, codeOf g₁, _, rest, codeOf g₃, codeOf g₄, codeOf g₅, gap g₀ h₀ fun l hl => hs l (by simp [hl]),
    gap g₁ h₁ fun l hl => hs l (by simp [hl]), hreceiver, gap g₃ h₃ fun l hl => hs l (by simp [hl]),
    gap g₄ h₄ fun l hl => hs l (by simp [hl]), gap g₅ h₅ fun l hl => hs l (by simp [hl]), ?_, hrest⟩
  rw [hrest]
  simp [Lexeme.code, Kind.isComment]

end Heads

/-! ### The receiver in the tree -/

section Receivers

variable {type : Text} {tail front : List Lexeme} {body behind : List Token} {last : Token} {c d' : Cursor} {f : Function}

lemma names_of_plain {g₁ named starred g₂ : List Lexeme} (h₁ : IsGapCode g₁) (h₂ : IsGapCode g₂)
    (hnamed : named = [] ∨ ∃ x g, x.all isWord ∧ IsGapCode g ∧ g ≠ [] ∧ named = ⟨.ident, x⟩ :: g)
    (hstarred : starred = [] ∨ ∃ g, IsGapCode g ∧ starred = ⟨.star, ['*']⟩ :: g) :
    ((g₁ ++ (named ++ (starred ++ ⟨.ident, type⟩ :: g₂))).filter (·.kind = .ident)).getLast? = some ⟨.ident, type⟩ ∧
      ∀ l ∈ g₁ ++ (named ++ (starred ++ ⟨.ident, type⟩ :: g₂)),
        l.kind.isOpen = false ∧ l.kind.isClose = false ∧ l.kind ≠ .lbracket := by
  have gap : ∀ g, IsGapCode g → g.filter (·.kind = .ident) = [] ∧
      ∀ l ∈ g, l.kind.isOpen = false ∧ l.kind.isClose = false ∧ l.kind ≠ .lbracket := by
    intro g hg
    refine ⟨List.filter_eq_nil_iff.2 fun l hl hk => ?_, fun l hl => ?_⟩
    · rw [decide_eq_true_eq] at hk
      have := hg l hl
      rw [hk] at this
      cases this
    · have := hg l hl
      revert this
      cases l.kind <;> simp [Kind.isSignificant, Kind.isOpen, Kind.isClose]
  constructor
  · have hlast : ((⟨.ident, type⟩ : Lexeme) :: g₂).filter (·.kind = .ident) = [⟨.ident, type⟩] := by
      rw [List.filter_cons_of_pos (by simp), (gap g₂ h₂).1]
    simp only [List.filter_append, hlast, ← List.append_assoc, List.getLast?_concat]
  · have hmem : ∀ l ∈ named ++ starred, l.kind.isOpen = false ∧ l.kind.isClose = false ∧ l.kind ≠ .lbracket := by
      intro l hl
      rcases List.mem_append.1 hl with hl | hl
      · rcases hnamed with rfl | ⟨x, g, -, hg, -, rfl⟩
        · cases hl
        · rcases List.mem_cons.1 hl with rfl | hl
          · exact ⟨rfl, rfl, by simp⟩
          · exact (gap g hg).2 l hl
      · rcases hstarred with rfl | ⟨g, hg, rfl⟩
        · cases hl
        · rcases List.mem_cons.1 hl with rfl | hl
          · exact ⟨rfl, rfl, by simp⟩
          · exact (gap g hg).2 l hl
    intro l hl
    rw [List.mem_append, ← List.append_assoc, List.mem_append, List.mem_cons] at hl
    rcases hl with hl | hl | rfl | hl
    · exact (gap g₁ h₁).2 l hl
    · exact hmem l hl
    · exact ⟨rfl, rfl, by simp⟩
    · exact (gap g₂ h₂).2 l hl

lemma statementPart_opened {g₀ xs : List Lexeme} (h₀ : IsGapCode g₀) :
    statementPart false (⟨.funcWord, "func"⟩ :: (g₀ ++ ⟨.lparen, ['(']⟩ :: xs)) =
      ⟨.funcWord, "func"⟩ :: ⟨.lparen, ['(']⟩ :: statementPart false xs := by
  obtain ⟨hgap, hend⟩ := statementPart_of_forall_not_isSignificant h₀
  rw [statementPart_cons_of_isSignificant rfl]
  show _ :: statementPart false (g₀ ++ _) = _
  rw [statementPart_append, hgap, hend, List.nil_append, statementPart_cons_of_isSignificant rfl]
  rfl

lemma statementPart_closed {e : Bool} {xs ys : List Lexeme} :
    statementPart e (xs ++ ⟨.rparen, [')']⟩ :: ys) = statementPart e xs ++ ⟨.rparen, [')']⟩ :: statementPart true ys := by
  rw [statementPart_append, statementPart_cons_of_isSignificant rfl]
  rfl

/-- The tree has the receiver type that a plain head names. -/
lemma OpensPlainly.receiver_type {ts : List Token} (h : OpensPlainly type ls tail) (hread : c.declKind = .ok (.function f, d'))
    (hahead : c.ahead = ts ++ d'.ahead) (hpart : ts.map Token.lexeme = statementPart false ls) :
    ∃ r, f.receiver = some r ∧ r.type = type := by
  obtain ⟨g₀, g₁, named, starred, g₂, g₃, g₄, g₅, h₀, h₁, h₂, h₃, h₄, h₅, hnamed, hstarred, htype, rfl⟩ := h
  obtain ⟨hlast, hflat⟩ := @names_of_plain type _ _ _ _ h₁ h₂ hnamed hstarred
  -- the group of the receiver
  have hgroup : ∀ T, g₁ ++ (named ++ (starred ++ ⟨.ident, type⟩ :: (g₂ ++ ⟨.rparen, [')']⟩ :: T))) =
      (g₁ ++ (named ++ (starred ++ ⟨.ident, type⟩ :: g₂))) ++ ⟨.rparen, [')']⟩ :: T := by
    intro T
    simp
  rw [statementPart_opened h₀, hgroup, statementPart_closed] at hpart
  generalize g₁ ++ (named ++ (starred ++ ⟨.ident, type⟩ :: g₂)) = R at hpart hlast hflat
  rw [List.map_eq_cons_iff] at hpart
  obtain ⟨keyword, ts, rfl, hkeyword, hpart⟩ := hpart
  rw [List.map_eq_cons_iff] at hpart
  obtain ⟨o, ts, rfl, ho, hpart⟩ := hpart
  rw [List.map_eq_append_iff] at hpart
  obtain ⟨inner, ts, rfl, hinner, hpart⟩ := hpart
  rw [List.map_eq_cons_iff] at hpart
  obtain ⟨close, ts, rfl, hclose, -⟩ := hpart
  have hokind : o.kind = .lparen := congrArg Lexeme.kind ho
  have hclosekind : close.kind = .rparen := congrArg Lexeme.kind hclose
  have hinnerkinds : ∀ t ∈ inner, t.kind.isOpen = false ∧ t.kind.isClose = false ∧ t.kind ≠ .lbracket := by
    intro t ht
    have hmem : t.lexeme ∈ statementPart false R := by
      rw [← hinner]
      exact List.mem_map_of_mem ht
    rcases mem_of_mem_statementPart hmem with e | hmem
    · have hk : t.kind = .semi := congrArg Lexeme.kind e
      rw [hk]
      exact ⟨rfl, rfl, by simp⟩
    · exact hflat _ hmem
  -- what the reader makes of it
  have hcut : cutGroup? 0 (inner ++ close :: (ts ++ d'.ahead)) = some (inner, close, ts ++ d'.ahead) :=
    cutGroup?_of_flat (fun t ht => ⟨(hinnerkinds t ht).1, (hinnerkinds t ht).2.1⟩) (by rw [hclosekind]; rfl) (by rw [hclosekind]; rfl)
  have hnames : ((inner.takeWhile (·.kind ≠ .lbracket)).filter (·.kind = .ident)).getLast?.map Token.lexeme = some ⟨.ident, type⟩ := by
    have hall : inner.takeWhile (·.kind ≠ .lbracket) = inner :=
      List.takeWhile_eq_self_iff.2 fun t ht => decide_eq_true (hinnerkinds t ht).2.2
    have hfilter := @filter_statementPart R false (· = .ident) (by simp only [decide_eq_true_eq]; rintro _ rfl; rfl) rfl
    rw [hall, ← List.getLast?_map, ← hlast, ← hfilter, ← hinner, List.filter_map]
    rfl
  obtain ⟨t, ht, hlexeme⟩ := Option.map_eq_some_iff.1 hnames
  have hadvance : c.advance = ⟨keyword.stop, o :: (inner ++ close :: (ts ++ d'.ahead))⟩ := by
    rw [Cursor.advance, hahead]
    simp
  have hreceiver : c.advance.receiver? =
      .ok (some ⟨t.text, inner.any (·.kind = .star)⟩, ⟨close.stop, ts ++ d'.ahead⟩) := by
    rw [hadvance, Cursor.receiver?, if_pos (by rw [Cursor.kind?]; simp [hokind])]
    simp only [Cursor.group, hcut, Cursor.receiver, ht, Except.map]
  obtain ⟨receiver, d₁, -, -, -, -, -, -, hread₁, -, -, -, -, rfl⟩ := Cursor.function_eq_ok_iff.1 (function_of_declKind hread)
  obtain ⟨rfl, rfl⟩ := Prod.mk.inj (Except.ok.inj (hreceiver.symm.trans hread₁))
  exact ⟨⟨t.text, inner.any (·.kind = .star)⟩, rfl, congrArg Lexeme.text hlexeme⟩

end Receivers

/-! ### Finding methods -/

/-- Whether a declaration is a `Validate` method without parameters that is written the plain way. -/
def Source.Decl.IsPlainMethod (d : Decl) (source : Text) : Prop := ∃ type tail, OpensPlainly type (d.lexemes source) tail

/-- A plain method is found as a method of the type that the tree has for its receiver. -/
lemma hasMethodHead_of_isPlainMethod {f : Function} (htree : parse source = .ok tree) (hd : d ∈ tree.decls)
    (hkind : d.kind = .function f) (hplain : d.IsPlainMethod source) :
    ∃ r, f.receiver = some r ∧ HasMethodHead r.type source := by
  obtain ⟨type, tail, hopens⟩ := hplain
  obtain ⟨front, body, last, behind, hat⟩ := exists_standsAt htree hd
  obtain ⟨c, d', ts, hread, hahead, hpart, -⟩ := hat.read
  rw [hat.lexemes_eq (parse_eq_ok htree).1] at hopens
  rw [hkind] at hread
  obtain ⟨r, hr, rfl⟩ := hopens.receiver_type hread hahead hpart
  have hlex : lex source = front.map Token.lexeme ++ ((body ++ [last]).map Token.lexeme ++ behind.map Token.lexeme) := by
    rw [← map_lexeme_tokens, hat.tokens]
    simp
  have hmem : ∀ l ∈ (body ++ [last]).map Token.lexeme, l ∈ lex source := by
    intro l hl
    rw [hlex]
    exact List.mem_append_right _ (List.mem_append_left _ hl)
  refine ⟨r, hr, codeOf (front.map Token.lexeme), _, codeOf (tail ++ behind.map Token.lexeme), ?_, hopens.methodHead hmem⟩
  rw [commentsBlanked_eq, hlex, codeOf_append]

/-- **Which methods are found.**  The method of a candidate is found when it is written the plain way, and otherwise only
when the head of such a method stands somewhere in the text; then, and only then, the candidate gets no other one. -/
theorem methods_found_iff {suffix : Text} {scan : Scan} {c : Candidate} {pointer : Bool} {body : Option Span}
    (hscan : Scan.ofSource suffix source = .ok scan) (hc : c ∈ scan.candidates) (hd : d ∈ scan.tree.decls)
    (hkind : d.kind = .function ⟨"Validate", some ⟨c.name, pointer⟩, body⟩) :
    (d.IsPlainMethod source → c.name ∈ scan.methodTypes) ∧ (c.name ∈ scan.methodTypes ↔ HasMethodHead c.name source) ∧
      ∀ custom registry, c.name ∈ (Additions.ofScan scan custom registry).methods ↔ ¬ HasMethodHead c.name source := by
  obtain ⟨htree, hmethods⟩ : parse source = .ok scan.tree ∧ scan.methodTypes = Detection.methodTypes source := by
    rw [Scan.ofSource] at hscan
    cases e : parse source with
    | error => simp [e, Except.map] at hscan
    | ok tree =>
      rw [e] at hscan
      cases hscan
      exact ⟨rfl, rfl⟩
  have hfound : c.name ∈ scan.methodTypes ↔ HasMethodHead c.name source := by
    rw [hmethods, Detection.mem_methodTypes_iff]
  refine ⟨fun hplain => ?_, hfound, fun custom registry => ?_⟩
  · obtain ⟨r, hr, hhead⟩ := hasMethodHead_of_isPlainMethod htree hd hkind hplain
    cases hr
    exact hfound.2 hhead
  · simp only [Additions.ofScan, Additions.compute, Text.mem_toSet, List.mem_filter, List.mem_map, Bool.not_eq_true',
      List.contains_eq_mem, decide_eq_false_iff_not, hfound]
    exact and_iff_right ⟨c, hc, rfl⟩

/-! ### A method that is missed -/

/-- A types file with a method whose receiver has no white space in front of the star. -/
def tightMethod : Text :=
  "package types\n\ntype AReq struct \x7b\n\tX string\n\x7d\n\nfunc (r*AReq) Validate() error \x7b\n\treturn nil\n\x7d\n"

def tightTree : Tree :=
  ⟨⟨"types", ⟨0, 13⟩⟩, [], [⟨.types [⟨"AReq", some [⟨["X"], none, false⟩]⟩], ⟨15, 45⟩, 15⟩,
    ⟨.function ⟨"Validate", some ⟨"AReq", true⟩, some ⟨78, 93⟩⟩, ⟨47, 93⟩, 47⟩]⟩

/-- A method is missed, and its type gets a second one. -/
theorem scan_misses_tight_method :
    ∃ scan c d, Scan.ofSource "Req" tightMethod = .ok scan ∧ c ∈ scan.candidates ∧ d ∈ scan.tree.decls ∧
      d.kind = .function ⟨"Validate", some ⟨c.name, true⟩, some ⟨78, 93⟩⟩ ∧ c.name ∉ scan.methodTypes ∧
      ∀ custom registry, c.name ∈ (Additions.ofScan scan custom registry).methods := by
  have htree : parse tightMethod = .ok tightTree := by
    apply ok_of_toOption
    unfold tightMethod
    repeat rw [String.toList_ofList]
    decide +kernel
  have hcandidates : candidatesOf "Req" tightTree = [⟨"AReq", [⟨"X", []⟩]⟩] := by decide +kernel
  have hmethods : Detection.methodTypes tightMethod = [] := by
    unfold tightMethod
    repeat rw [String.toList_ofList]
    decide +kernel
  have hscan : Scan.ofSource "Req" tightMethod = .ok ⟨"types", [⟨"AReq", [⟨"X", []⟩]⟩], [], tightTree⟩ := by
    rw [Scan.ofSource, htree, ← hcandidates, ← hmethods]
    rfl
  obtain ⟨-, hfound, hmissing⟩ := methods_found_iff hscan (List.mem_singleton_self _)
    (List.mem_cons_of_mem _ (List.mem_singleton_self _)) rfl
  have hnone : ¬ HasMethodHead "AReq" tightMethod := hfound.not.1 (List.not_mem_nil)
  exact ⟨_, _, _, hscan, List.mem_singleton_self _, List.mem_cons_of_mem _ (List.mem_singleton_self _), rfl, List.not_mem_nil,
    fun custom registry => (hmissing custom registry).2 hnone⟩

end RuleWeaver
