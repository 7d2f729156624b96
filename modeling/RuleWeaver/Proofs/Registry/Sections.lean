import RuleWeaver.Proofs.Registry.Imports
import RuleWeaver.Proofs.Registry.Regeneration
import RuleWeaver.Proofs.Source.WrittenForms

/-!
# Sections of a registry file

The rule map and the functions that are written are sections, so a registry file is read whenever what is carried over is
one (`exists_parse_registryText`).
-/

namespace RuleWeaver

open Source Text

variable {package name tag : Text} {imports : List NewImport} {entries : List (Text × Text)} {kept functions : List Text}

/-! ### Functions that are written -/

/-- The code of a function to be filled in. -/
def stubCode (name : Text) : List Lexeme :=
  [⟨.funcWord, "func"⟩, ⟨.ident, name⟩, ⟨.lparen, ['(']⟩, ⟨.ident, "fl"⟩, ⟨.ident, "validator"⟩, ⟨.dot, ['.']⟩,
    ⟨.ident, "FieldLevel"⟩, ⟨.rparen, [')']⟩, ⟨.ident, "bool"⟩, ⟨.lbrace, ['\x7b']⟩, ⟨.flowWord, "return"⟩, ⟨.ident, "true"⟩,
    .impliedSemi, ⟨.rbrace, ['\x7d']⟩]

lemma lex_stub (htag : '\n' ∉ tag) (hname : Snippet.isLocalName name) (hident : IsName name) :
    lex (Snippet.stub tag name) =
      [⟨.lineComment, '/' :: '/' :: Snippet.stubComment tag name⟩, ⟨.newline, ['\n']⟩, ⟨.funcWord, "func"⟩, ⟨.blank, [' ']⟩,
        ⟨.ident, name⟩, ⟨.lparen, ['(']⟩, ⟨.ident, "fl"⟩, ⟨.blank, [' ']⟩, ⟨.ident, "validator"⟩, ⟨.dot, ['.']⟩,
        ⟨.ident, "FieldLevel"⟩, ⟨.rparen, [')']⟩, ⟨.blank, [' ']⟩, ⟨.ident, "bool"⟩, ⟨.blank, [' ']⟩, ⟨.lbrace, ['\x7b']⟩,
        ⟨.newline, ['\n']⟩, ⟨.blank, ['\t']⟩, ⟨.lineComment, '/' :: '/' :: Snippet.stubNote tag⟩, ⟨.newline, ['\n']⟩,
        ⟨.blank, ['\t']⟩, ⟨.flowWord, "return"⟩, ⟨.blank, [' ']⟩, ⟨.ident, "true"⟩, ⟨.newline, ['\n']⟩, ⟨.rbrace, ['\x7d']⟩,
        ⟨.newline, ['\n']⟩] := by
  have h := Snippet.lex_stub_append (y := []) htag hname
  rw [List.append_nil, lex_nil, List.append_nil] at h
  have h₁ : lex "func " = [⟨.funcWord, "func"⟩, ⟨.blank, [' ']⟩] := by decide +kernel
  have h₂ : lex "(fl validator.FieldLevel) bool \x7b\n\t" = [⟨.lparen, ['(']⟩, ⟨.ident, "fl"⟩, ⟨.blank, [' ']⟩,
      ⟨.ident, "validator"⟩, ⟨.dot, ['.']⟩, ⟨.ident, "FieldLevel"⟩, ⟨.rparen, [')']⟩, ⟨.blank, [' ']⟩, ⟨.ident, "bool"⟩,
      ⟨.blank, [' ']⟩, ⟨.lbrace, ['\x7b']⟩, ⟨.newline, ['\n']⟩, ⟨.blank, ['\t']⟩] := by decide +kernel
  have h₃ : lex "\n\treturn true\n\x7d\n" = [⟨.newline, ['\n']⟩, ⟨.blank, ['\t']⟩, ⟨.flowWord, "return"⟩, ⟨.blank, [' ']⟩,
      ⟨.ident, "true"⟩, ⟨.newline, ['\n']⟩, ⟨.rbrace, ['\x7d']⟩, ⟨.newline, ['\n']⟩] := by decide +kernel
  rw [h, Snippet.stubLexemes, hident, h₁, h₂, h₃]
  rfl

/-- A function to be filled in is a section. -/
lemma isSection_stub (htag : '\n' ∉ tag) (hname : Snippet.isLocalName name) (hident : IsName name) :
    IsSection (Snippet.stub tag name) [.function ⟨name, none, none⟩] := by
  obtain ⟨b, d, hread, hd⟩ : ∃ b d, (Cursor.mk 0 (unplaced (stubCode name) ++ [.impliedSemi 0])).declKind =
      .ok (.function ⟨name, none, b⟩, d) ∧ d.ahead = [.impliedSemi 0] :=
    ⟨_, _, declKind_of_function ⟨.funcWord, "func", 0⟩ ⟨.ident, name, 0⟩
      (unplaced [⟨.ident, "fl"⟩, ⟨.ident, "validator"⟩, ⟨.dot, ['.']⟩, ⟨.ident, "FieldLevel"⟩])
      (unplaced [⟨.flowWord, "return"⟩, ⟨.ident, "true"⟩, .impliedSemi]) rfl rfl rfl (cutGroup?_of_flat (by decide) rfl rfl)
      rfl rfl (cutGroup?_of_flat (by decide) rfl rfl), rfl⟩
  have hlex := lex_stub htag hname hident
  have hpart : statementPart false (lex (Snippet.stub tag name)) =
      (unplaced (stubCode name)).map Token.lexeme ++ [.impliedSemi] := by
    rw [hlex, map_lexeme_unplaced]
    rfl
  exact isSection_of_declKind (by rw [isWhole, hlex]; rfl) (by rw [hlex]; rfl) (by rw [hlex]; rfl) hpart rfl rfl rfl hread hd

/-- The functions to add are sections. -/
lemma isSection_functionText {f : NewFunction} (hf : IsAddable f) (hident : IsName f.name) :
    IsSection ((Snippet.knownFunction? f.name).getD (Snippet.stub f.tag f.name)) [.function ⟨f.name, none, none⟩] := by
  unfold Snippet.knownFunction?
  split
  · next e =>
    rw [e, Option.getD_some]
    apply isSection_of_isDeclText
    unfold Snippet.mobileFunction Snippet.lines
    simp only [List.flatMap_cons, List.flatMap_nil]
    repeat rw [String.toList_ofList]
    decide +kernel
  split
  · next e =>
    rw [e, Option.getD_some]
    apply isSection_of_isDeclText
    unfold Snippet.idCardFunction Snippet.lines
    simp only [List.flatMap_cons, List.flatMap_nil]
    repeat rw [String.toList_ofList]
    decide +kernel
  · exact isSection_stub hf.1 hf.2 hident

/-! ### The rule map -/

section RuleMap

variable {b : Nat} {vname : Token} {rest : List Token}

/-- A variable with a map literal. -/
lemma declKind_of_map (word vname assign mapWord lb key rb qualifier dot func o close semi : Token) (inner rest : List Token)
    (hword : word.kind = .varWord) (hname : vname.kind = .ident) (hassign : assign.kind = .assign) (hmap : mapWord.kind = .ident)
    (hlb : lb.kind = .lbracket) (hkey : key.kind = .ident) (hrb : rb.kind = .rbracket) (hqualifier : qualifier.kind = .ident)
    (hdot : dot.kind = .dot) (hfunc : func.kind = .ident) (ho : o.kind = .lbrace)
    (hinner : cutGroup? 0 (inner ++ close :: semi :: rest) = some (inner, close, semi :: rest)) (hsemi : semi.kind = .semi) :
    (Cursor.mk b (word :: vname :: assign :: mapWord :: lb :: key :: rb :: qualifier :: dot :: func :: o ::
      (inner ++ close :: semi :: rest))).declKind = .ok (.vars [vname.text], ⟨close.stop, semi :: rest⟩) := by
  have hkeyType : (Cursor.mk mapWord.stop (lb :: key :: rb :: qualifier :: dot :: func :: o ::
      (inner ++ close :: semi :: rest))).group = .ok (⟨[key], lb.start, rb.stop⟩,
        ⟨rb.stop, qualifier :: dot :: func :: o :: (inner ++ close :: semi :: rest)⟩) := by
    simp [Cursor.group, cutGroup?, hkey, hrb, Kind.isOpen, Kind.isClose]
  have hliteral : (Cursor.mk func.stop (o :: (inner ++ close :: semi :: rest))).group =
      .ok (⟨inner, o.start, close.stop⟩, ⟨close.stop, semi :: rest⟩) := by
    simp [Cursor.group, hinner]
  refine declKind_of_value word assign _ hword hname hassign ?_
  rw [skipStatement_advance (k := .ident) (by simp [Cursor.kind?, hmap]) rfl, Cursor.advance,
    skipStatement_group (k := .lbracket) (by simp [Cursor.kind?, hlb]) rfl hkeyType,
    skipStatement_advance (k := .ident) (by simp [Cursor.kind?, hqualifier]) rfl, Cursor.advance,
    skipStatement_advance (k := .dot) (by simp [Cursor.kind?, hdot]) rfl, Cursor.advance,
    skipStatement_advance (k := .ident) (by simp [Cursor.kind?, hfunc]) rfl, Cursor.advance,
    skipStatement_group (k := .lbrace) (by simp [Cursor.kind?, ho]) rfl hliteral,
    skipStatement_stop (.inr (.inl (by simp [Cursor.kind?, hsemi])))]

/-- The code of the rule map up to its brace. -/
def ruleMapHeadCode : List Lexeme :=
  [⟨.varWord, "var"⟩, ⟨.ident, "registerValidation"⟩, ⟨.assign, ['=']⟩, ⟨.ident, "map"⟩, ⟨.lbracket, ['[']⟩, ⟨.ident, "string"⟩,
    ⟨.rbracket, [']']⟩, ⟨.ident, "validator"⟩, ⟨.dot, ['.']⟩, ⟨.ident, "Func"⟩, ⟨.lbrace, ['\x7b']⟩]

/-- The rule map is a section. -/
lemma isSection_ruleMap (h : AreEntries entries) :
    IsSection (mapHead ++ (mapText entries ++ ['\n'])) [.vars ["registerValidation"]] := by
  obtain ⟨flat, hmap, hall⟩ : ∃ flat : List Lexeme, lex (mapText entries ++ ['\n']) =
      ⟨.lbrace, ['\x7b']⟩ :: ⟨.newline, ['\n']⟩ :: (flat ++ [⟨.rbrace, ['\x7d']⟩, ⟨.newline, ['\n']⟩]) ∧
      flat.all GrowingMap.isFlat := by
    refine ⟨_, ?_, GrowingMap.isFlat_entries (GrowingMap.arePlain h.isEntry)⟩
    rw [mapText, GrowingMap.lex_render_append h.isEntry, lex_newline, lex_nil, GrowingMap.mapLexemes]
    simp
  have hlex : lex (mapHead ++ (mapText entries ++ ['\n'])) = (lex mapHead ++ [⟨.lbrace, ['\x7b']⟩, ⟨.newline, ['\n']⟩]) ++
      (flat ++ [⟨.rbrace, ['\x7d']⟩, ⟨.newline, ['\n']⟩]) := by
    rw [lex_mapHead_append mapText_head?, hmap, List.append_assoc]
    rfl
  have hinner : ∀ t ∈ unplaced (statementPart false flat), t.kind.isOpen = false ∧ t.kind.isClose = false := by
    intro t ht
    obtain ⟨l, hl, rfl⟩ := List.mem_map.1 ht
    rcases mem_of_mem_statementPart hl with rfl | hl
    · exact ⟨rfl, rfl⟩
    · have := List.all_eq_true.1 hall l hl
      simp only [GrowingMap.isFlat, Bool.and_eq_true, Bool.not_eq_true'] at this
      exact ⟨this.1.2, this.2⟩
  have hread := declKind_of_map (b := 0) ⟨.varWord, "var", 0⟩ ⟨.ident, "registerValidation", 0⟩ ⟨.assign, ['='], 0⟩
    ⟨.ident, "map", 0⟩ ⟨.lbracket, ['['], 0⟩ ⟨.ident, "string", 0⟩ ⟨.rbracket, [']'], 0⟩ ⟨.ident, "validator", 0⟩
    ⟨.dot, ['.'], 0⟩ ⟨.ident, "Func", 0⟩ ⟨.lbrace, ['\x7b'], 0⟩ ⟨.rbrace, ['\x7d'], 0⟩ (.impliedSemi 0) _ [] rfl rfl rfl rfl rfl rfl
    rfl rfl rfl rfl rfl (cutGroup?_of_flat hinner rfl rfl) rfl
  have hsound : flat.all Lexeme.isSound := List.all_eq_true.2 fun l hl => by
    have := List.all_eq_true.1 hall l hl
    simp only [GrowingMap.isFlat, Bool.and_eq_true] at this
    exact this.1.1.1
  have hhead : (lex mapHead ++ ([⟨.lbrace, ['\x7b']⟩, ⟨.newline, ['\n']⟩] : List Lexeme)).all Lexeme.isSound ∧ isBalanced [] (lex mapHead) ∧
      statementPart false (lex mapHead ++ [⟨.lbrace, ['\x7b']⟩, ⟨.newline, ['\n']⟩]) = ruleMapHeadCode ∧
      endingBehind false (lex mapHead ++ [⟨.lbrace, ['\x7b']⟩, ⟨.newline, ['\n']⟩]) = false := by
    decide +kernel
  have hpart : statementPart false (lex (mapHead ++ (mapText entries ++ ['\n']))) =
      (unplaced (ruleMapHeadCode ++ (statementPart false flat ++ [⟨.rbrace, ['\x7d']⟩]))).map Token.lexeme ++ [.impliedSemi] := by
    rw [map_lexeme_unplaced, hlex, statementPart_append, hhead.2.2.1, hhead.2.2.2, statementPart_append, List.append_assoc,
      List.append_assoc]
    rfl
  refine isSection_of_declKind ?_ ?_ ?_ hpart rfl ?_ rfl hread rfl
  · rw [isWhole, hlex, List.all_append, hhead.1, List.all_append, hsound]
    rfl
  · rw [hlex, ← List.append_assoc, List.getLast?_append]
    rfl
  · rw [hlex, List.append_assoc, isBalanced_append hhead.2.1]
    show isBalanced [.lbrace] (flat ++ [⟨.rbrace, ['\x7d']⟩, ⟨.newline, ['\n']⟩]) = true
    rw [isBalanced_append (GrowingMap.isBalanced_of_flat hall)]
    rfl
  · simp [unplaced, ruleMapHeadCode]

end RuleMap

/-! ### The file -/

lemma mapHead_first : (statementPart false (lex mapHead)).head? = some ⟨.varWord, "var"⟩ := by
  decide +kernel

/-- A file is read when what follows its imports is a section. -/
lemma exists_parse_of_section {s t : Text} {shapes : List DeclKind} (hi : ∀ l ∈ imports, IsImportLine l)
    (ht : IsSection t shapes) (hfirst : (statementPart false (lex t)).head? = some ⟨.varWord, "var"⟩)
    (hlex : lex s = [⟨.packageWord, "package"⟩, ⟨.blank, [' ']⟩, ⟨.ident, package⟩, ⟨.newline, ['\n']⟩, ⟨.newline, ['\n']⟩] ++
      (groupLexemes imports ++ lex t)) : ∃ tree, parse s = .ok tree ∧ tree.decls.map (·.kind.shape) = shapes := by
  have hlines : ∀ l ∈ orderedLines imports, IsImportLine l := fun l hl => hi l (mem_orderedLines.1 hl)
  obtain ⟨hgroup, hbehind⟩ := statementPart_groupLexemes hi
  obtain ⟨ls, hls⟩ := List.head?_eq_some_iff.1 hfirst
  have hstatements : statementLexemes false (lex s) = headLexemes package (orderedLines imports) ++ ⟨.varWord, "var"⟩ :: ls := by
    have hclause : statementPart false [⟨.packageWord, "package"⟩, ⟨.blank, [' ']⟩, ⟨.ident, package⟩, ⟨.newline, ['\n']⟩,
        ⟨.newline, ['\n']⟩] = [⟨.packageWord, "package"⟩, ⟨.ident, package⟩, .impliedSemi] := rfl
    have hend : endingBehind false [⟨.packageWord, "package"⟩, ⟨.blank, [' ']⟩, ⟨.ident, package⟩, ⟨.newline, ['\n']⟩,
        ⟨.newline, ['\n']⟩] = false := rfl
    rw [hlex, statementLexemes_append, statementLexemes_append, hclause, hend, hgroup, hbehind, statementLexemes, ht.ended, hls,
      headLexemes]
    simp
  obtain ⟨p, c, is, c', hclause, -, himports, -, hahead⟩ := exists_read_head hlines hstatements (by decide) (by decide)
  obtain ⟨ds, d, hd, hds, hshapes⟩ := ht.decls c' c'.ahead [] (by simp) (by rw [hahead, hls])
  have hdecls : c'.decls = .ok ds := by
    rw [hds, Cursor.decls, if_pos (by simp [Cursor.pastSemis, Cursor.kind?, hd])]
    simp [Except.map]
  have htokenize : tokenize s = .ok ((tokens s).filter (·.kind ≠ .blank)) := by
    have hadds := adds_group hi
    refine tokenize_eq_ok_iff.2 ⟨?_, ?_, rfl⟩
    · have hwhole : (lex t).all Lexeme.isSound := ht.whole
      rw [isWhole, hlex, List.all_append, List.all_append, hadds.sound, hwhole]
      rfl
    · rw [hlex]
      exact (isBalanced_append hadds.balanced).trans ht.balanced
  refine ⟨Tree.withComments ((tokens s).filter (·.kind ≠ .blank)) ⟨p, is, ds⟩, ?_, ?_⟩
  · have hfile : Cursor.file ⟨0, endStatements s.width false ((tokens s).filter (·.kind ≠ .blank))⟩ = .ok ⟨p, is, ds⟩ :=
      Cursor.file_eq_ok_iff.2 ⟨p, c, is, c', ds, hclause, himports, hdecls, rfl⟩
    exact parse_eq_ok_iff.2 ⟨_, _, htokenize, hfile, rfl⟩
  · rw [Tree.withComments, List.map_map]
    exact hshapes

/-- A registry file is read when the functions behind its rule map are sections. -/
lemma exists_parse_registryText {shapes : List DeclKind} (hp : IsName package) (hi : ∀ l ∈ imports, IsImportLine l)
    (he : AreEntries entries) (h : IsSection (functionBlocks kept functions) shapes) :
    ∃ tree, parse (registryText package imports entries kept functions) = .ok tree ∧
      tree.decls.map (·.kind.shape) = .vars ["registerValidation"] :: .function ⟨"init", none, none⟩ :: shapes := by
  have hregister : IsSection Snippet.registerAll [.function ⟨"init", none, none⟩] := by
    apply isSection_of_isDeclText
    unfold Snippet.registerAll Snippet.lines
    simp only [List.flatMap_cons, List.flatMap_nil]
    repeat rw [String.toList_ofList]
    decide +kernel
  have hsection := (isSection_ruleMap he).append (IsSection.newline.append (hregister.append h))
  have hsplit : mapHead ++ (mapText entries ++ ['\n']) ++ (['\n'] ++ (Snippet.registerAll ++ functionBlocks kept functions)) =
      mapHead ++ (mapText entries ++ registryTail kept functions) := by
    rw [registryTail_eq]
    generalize mapHead = a
    generalize Snippet.registerAll = b
    simp
  rw [hsplit] at hsection
  have hlex : lex (registryText package imports entries kept functions) =
      [⟨.packageWord, "package"⟩, ⟨.blank, [' ']⟩, ⟨.ident, package⟩, ⟨.newline, ['\n']⟩, ⟨.newline, ['\n']⟩] ++
        (groupLexemes imports ++ lex (mapHead ++ (mapText entries ++ registryTail kept functions))) := by
    rw [registryText_eq, lex_registryHead_append hp hi mapText_head?, lex_mapHead_append mapText_head?]
  refine exists_parse_of_section hi hsection ?_ hlex
  obtain ⟨ls, hls⟩ := List.head?_eq_some_iff.1 mapHead_first
  rw [lex_mapHead_append mapText_head?, statementPart_append, hls]
  rfl

end RuleWeaver
