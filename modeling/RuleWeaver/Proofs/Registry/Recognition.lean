import RuleWeaver.Proofs.Registry.FileText
import RuleWeaver.Proofs.Snippet
import RuleWeaver.Registry.Basic

/-!
# Recognising a registry file

What is found in a registry file that is put together from parts: the rule map with its entries (`findMap?_registryText`),
and the functions (`functionNames_registryText`).
-/

namespace RuleWeaver

open Source Text
open Detection (Piece FitsNowhere fitsNowhere_of_not_mem fitsNowhere_of_missing lineHeads freshBehind)

variable {shape : List Piece} {imports lines : List NewImport} {l : NewImport} {entries : List (Text × Text)}
  {kept functions : List Text} {package a b s x y : Text} {c d : Char}

/-! ### In front of the rule map -/

/-- Whether a shape is that of a variable with a map literal. -/
structure IsVarShape (shape : List Piece) : Prop where
  first : ∃ p ps, shape = .text ('v' :: p) :: ps
  assigns : ∃ t, .text t ∈ shape ∧ '=' ∈ t
  plain : ∀ t, .text t ∈ shape → '\"' ∉ t ∧ '(' ∉ t

lemma isVarShape_ruleMapHead : IsVarShape Detection.ruleMapHead where
  first := ⟨_, _, rfl⟩
  assigns := ⟨['='], by simp [Detection.ruleMapHead], by decide⟩
  plain := by
    intro t ht
    simp only [Detection.ruleMapHead, List.mem_cons, Piece.text.injEq, reduceCtorEq, List.not_mem_nil, false_or, or_false] at ht
    rcases ht with rfl | rfl | rfl | rfl | rfl | rfl | rfl | rfl | rfl <;> decide

namespace IsVarShape

lemma fitsNowhere_of_not_mem (h : IsVarShape shape) (hv : 'v' ∉ a) : FitsNowhere shape a b := by
  obtain ⟨p, ps, rfl⟩ := h.first
  exact Detection.fitsNowhere_of_not_mem hv

/-- A text without an equals sign in front of a bracket or a quote. -/
lemma fitsNowhere_before (h : IsVarShape shape) (ha : '=' ∉ a) (hc : c = '\"' ∨ c = '(') : FitsNowhere shape a (c :: b) := by
  obtain ⟨t, ht, heq⟩ := h.assigns
  have hmissing : FitsNowhere shape a [] := fitsNowhere_of_missing ht heq ha
  rcases hc with rfl | rfl
  · exact hmissing.before (by decide) fun p hp => (h.plain p hp).1
  · exact hmissing.before (by decide) fun p hp => (h.plain p hp).2

lemma fitsNowhere_quote (h : IsVarShape shape) (hs : FitsNowhere shape (s.flatMap quoteChar) []) :
    FitsNowhere shape (quote s) b := by
  have hquote : quote s = ['\"'] ++ (s.flatMap quoteChar ++ ['\"']) := rfl
  have hinner : FitsNowhere shape (s.flatMap quoteChar ++ ['\"']) b :=
    .append (hs.before (by decide) fun p hp => (h.plain p hp).1) (h.fitsNowhere_of_not_mem (by decide))
  rw [hquote]
  exact .append (h.fitsNowhere_of_not_mem (by decide)) hinner

lemma fitsNowhere_line (h : IsVarShape shape) (hl : IsImportLine l)
    (hpath : FitsNowhere shape (l.path.flatMap quoteChar) []) : FitsNowhere shape (lineText l) b := by
  have hend : ∀ z, FitsNowhere shape ['\n'] z := fun z => h.fitsNowhere_of_not_mem (by decide)
  have htab : ∀ z, FitsNowhere shape ['\t'] z := fun z => h.fitsNowhere_of_not_mem (by decide)
  obtain ⟨_ | n, path⟩ := l
  · exact .append (.append (htab _) (h.fitsNowhere_quote hpath)) (hend _)
  · have hn : IsImportName n := hl n rfl
    have hname : '=' ∉ n ++ [' '] := by
      rw [List.mem_append, not_or]
      exact ⟨fun hmem => absurd (List.all_eq_true.1 hn.all_isPathChar _ hmem) (by decide), by decide⟩
    have hspec : FitsNowhere shape ((n ++ [' ']) ++ quote path) (['\n'] ++ b) :=
      .append (h.fitsNowhere_before hname (.inl rfl)) (h.fitsNowhere_quote hpath)
    exact .append (.append (htab _) hspec) (hend _)

lemma fitsNowhere_lines (h : IsVarShape shape) (hl : ∀ l ∈ lines, IsImportLine l)
    (hpath : ∀ l ∈ lines, FitsNowhere shape (l.path.flatMap quoteChar) []) : FitsNowhere shape (lines.flatMap lineText) b := by
  induction lines with
  | nil => exact Detection.fitsNowhere_nil
  | cons l lines ih =>
    rw [List.flatMap_cons]
    exact .append (h.fitsNowhere_line (hl l List.mem_cons_self) (hpath l List.mem_cons_self))
      (ih (fun m hm => hl m (List.mem_cons_of_mem _ hm)) fun m hm => hpath m (List.mem_cons_of_mem _ hm))

/-- No map begins in the package clause or the imports. -/
lemma fitsNowhere_imports (h : IsVarShape shape) (hp : IsName package) (hl : ∀ l ∈ imports, IsImportLine l)
    (hpath : ∀ l ∈ imports, FitsNowhere shape (l.path.flatMap quoteChar) []) :
    FitsNowhere shape ("package ".toList ++ package ++ "\n\n".toList ++ renderImports imports) b := by
  have hclause : '=' ∉ "package ".toList ++ package ++ "\n\nimport ".toList := by
    rw [List.mem_append, List.mem_append, not_or, not_or]
    exact ⟨⟨by decide, fun hmem => absurd (List.all_eq_true.1 hp.all_isPathChar _ hmem) (by decide)⟩, by decide⟩
  have hgap : ∀ z, FitsNowhere shape (groupGap imports '\n') z := by
    intro z
    refine h.fitsNowhere_of_not_mem ?_
    rcases groupGap_cases imports '\n' with e | e <;> rw [e] <;> decide
  have hclose : ∀ z, FitsNowhere shape ")\n" z := fun z => h.fitsNowhere_of_not_mem (by decide)
  have hopen : ∀ z, FitsNowhere shape "(\n" z := fun z => h.fitsNowhere_of_not_mem (by decide)
  have hstandard : ∀ z, FitsNowhere shape ((standardLines imports).flatMap lineText) z := fun z =>
    h.fitsNowhere_lines (fun l hm => hl l (mem_of_mem_standardLines hm)) fun l hm => hpath l (mem_of_mem_standardLines hm)
  have hother : ∀ z, FitsNowhere shape ((otherLines imports).flatMap lineText) z := fun z =>
    h.fitsNowhere_lines (fun l hm => hl l (mem_of_mem_otherLines hm)) fun l hm => hpath l (mem_of_mem_otherLines hm)
  have hsplit : "package ".toList ++ package ++ "\n\n".toList ++ renderImports imports =
      ("package ".toList ++ package ++ "\n\nimport ".toList) ++ ("(\n".toList ++ ((standardLines imports).flatMap lineText ++
        (groupGap imports '\n' ++ ((otherLines imports).flatMap lineText ++ ")\n".toList)))) := by
    rw [renderImports_eq]
    simp only [List.append_assoc]
    rfl
  rw [hsplit]
  exact .append (h.fitsNowhere_before hclause (.inr rfl))
    (.append (hopen _) (.append (hstandard _) (.append (hgap _) (.append (hother _) (hclose _)))))

end IsVarShape

/-! ### The rule map -/

lemma codeOf_lineLexemes (hl : IsImportLine l) : codeOf (lineLexemes l) = lineText l := by
  have hjoined : joined (lineLexemes l) = lineText l := by
    have := congrArg joined (lex_line (y := []) hl)
    rw [joined_append, joined_lex, joined_lex, List.append_nil] at this
    rw [← this, lineText, List.append_assoc]
    rfl
  rw [codeOf_of_no_comment ?_, hjoined]
  intro m hm
  obtain ⟨_ | n, path⟩ := l
  · simp only [lineLexemes, List.cons_append, List.nil_append, List.mem_cons, List.not_mem_nil, or_false] at hm
    rcases hm with rfl | rfl | rfl <;> rfl
  · obtain ⟨k, hk, hlex⟩ := hl n rfl
    simp only [lineLexemes, hlex, List.cons_append, List.nil_append, List.mem_cons, List.not_mem_nil, or_false] at hm
    rcases hm with rfl | rfl | rfl | rfl | rfl
    · rfl
    · rcases hk with rfl | rfl <;> rfl
    · rfl
    · rfl
    · rfl

lemma codeOf_lines (hl : ∀ l ∈ lines, IsImportLine l) : codeOf (lines.flatMap lineLexemes) = lines.flatMap lineText := by
  induction lines with
  | nil => rfl
  | cons l lines ih =>
    rw [List.flatMap_cons, List.flatMap_cons, codeOf_append, codeOf_lineLexemes (hl l List.mem_cons_self),
      ih fun m hm => hl m (List.mem_cons_of_mem _ hm)]

lemma codeOf_groupLexemes (hi : ∀ l ∈ imports, IsImportLine l) : codeOf (groupLexemes imports) = renderImports imports := by
  have hgap : codeOf (groupGap imports ⟨.newline, ['\n']⟩) = groupGap imports '\n' := by
    unfold groupGap
    split <;> rfl
  have hopen : codeOf [⟨.importWord, "import"⟩, ⟨.blank, [' ']⟩, ⟨.lparen, ['(']⟩, ⟨.newline, ['\n']⟩] = "import (\n".toList := by
    decide
  have hclose : codeOf [⟨.rparen, [')']⟩, ⟨.newline, ['\n']⟩] = ")\n".toList := by decide
  rw [groupLexemes, renderImports_eq]
  simp only [codeOf_append, hgap, hopen, hclose, List.append_assoc]
  rw [codeOf_lines fun l hl => hi l (mem_of_mem_standardLines hl), codeOf_lines fun l hl => hi l (mem_of_mem_otherLines hl)]

/-- A registry file up to its rule map, without the comment above it. -/
def headCode (package : Text) (imports : List NewImport) : Text :=
  "package ".toList ++ package ++ "\n\n".toList ++ renderImports imports ++
    ('\n' :: (blanked Snippet.ruleMapComment ++ ['\n']))

/-- The lexemes of a registry file up to its rule map. -/
def headTokens (package : Text) (imports : List NewImport) : List Lexeme :=
  [⟨.packageWord, "package"⟩, ⟨.blank, [' ']⟩, ⟨.ident, package⟩, ⟨.newline, ['\n']⟩, ⟨.newline, ['\n']⟩] ++
    (groupLexemes imports ++ lex mapHead)

lemma codeOf_headTokens (hi : ∀ l ∈ imports, IsImportLine l) :
    codeOf (headTokens package imports) = headCode package imports ++ Snippet.ruleMapHead := by
  have hhead : codeOf (lex mapHead) = '\n' :: (blanked Snippet.ruleMapComment ++ '\n' :: Snippet.ruleMapHead) := by
    decide +kernel
  have hclause : codeOf [⟨.packageWord, "package"⟩, ⟨.blank, [' ']⟩, ⟨.ident, package⟩, ⟨.newline, ['\n']⟩,
      ⟨.newline, ['\n']⟩] = "package ".toList ++ package ++ "\n\n".toList := by
    rw [codeOf_of_no_comment]
    · simp only [joined_cons, joined_nil, List.append_assoc]
      rfl
    · intro l hl
      simp only [List.mem_cons, List.not_mem_nil, or_false] at hl
      rcases hl with rfl | rfl | rfl | rfl | rfl <;> rfl
  rw [headTokens, codeOf_append, codeOf_append, hclause, codeOf_groupLexemes hi, hhead]
  unfold headCode
  generalize blanked Snippet.ruleMapComment = comment
  generalize Snippet.ruleMapHead = head
  simp only [List.append_assoc, List.cons_append, List.nil_append]

lemma fitsNowhere_headCode (hp : IsName package) (hi : ∀ l ∈ imports, IsImportLine l)
    (hpath : ∀ l ∈ imports, FitsNowhere Detection.ruleMapHead (l.path.flatMap quoteChar) []) :
    FitsNowhere Detection.ruleMapHead (headCode package imports) b := by
  refine .append (isVarShape_ruleMapHead.fitsNowhere_imports hp hi hpath) (isVarShape_ruleMapHead.fitsNowhere_of_not_mem ?_)
  have hcomment : '\n' ∉ Snippet.ruleMapComment := by decide +kernel
  simp only [List.mem_cons, List.mem_append, List.not_mem_nil, or_false, not_or]
  exact ⟨by decide, fun h => absurd (eq_space_of_mem_blanked hcomment h) (by decide), by decide⟩

/-- Whether the entries of a rule map are found as they are written. -/
def AreEntries (entries : List (Text × Text)) : Prop := ∀ e ∈ entries, isFunctionName e.2

lemma AreEntries.isEntry (h : AreEntries entries) :
    ∀ e ∈ entries.map fun (tag, function) => (tag, EntryValue.name function), GrowingMap.IsEntry e := by
  intro e he
  obtain ⟨⟨tag, function⟩, hmem, rfl⟩ := List.mem_map.1 he
  exact h _ hmem

/-- The entries that are found in a rule map. -/
def foundRules (entries : List (Text × Text)) : List FoundEntry :=
  (entries.filter (·.1 ≠ [])).map fun (tag, function) => ⟨tag.flatMap quoteChar, some function⟩

lemma flatMap_foundEntries :
    (entries.map fun (tag, function) => (tag, EntryValue.name function)).flatMap GrowingMap.foundEntries =
      foundRules entries := by
  induction entries with
  | nil => rfl
  | cons e entries ih =>
    obtain ⟨tag, function⟩ := e
    rw [List.map_cons, List.flatMap_cons, ih, GrowingMap.foundEntries, foundRules, foundRules]
    by_cases h : tag = [] <;> simp [h]

/-- **The rule map of a registry file is found**, with the entries that are written there. -/
theorem findMap?_registryText (hp : IsName package) (hi : ∀ l ∈ imports, IsImportLine l)
    (hpath : ∀ l ∈ imports, FitsNowhere Detection.ruleMapHead (l.path.flatMap quoteChar) []) (he : AreEntries entries) :
    ∃ m, Detection.findMap? Detection.ruleMapHead (registryText package imports entries kept functions) = some m ∧
      m.entries (registryText package imports entries kept functions) = foundRules entries := by
  have hlex : lex (registryHead package imports ++ (mapText entries ++ registryTail kept functions)) =
      headTokens package imports ++ lex (mapText entries ++ registryTail kept functions) := by
    rw [lex_registryHead_append hp hi mapText_head?, headTokens]
    simp only [List.append_assoc]
  have hhead : ∀ z, Detection.readShape? Detection.ruleMapHead (Snippet.ruleMapHead ++ '\x7b' :: z) = some z := by
    intro z
    rfl
  have hfind := GrowingMap.findMap?_written he.isEntry hlex (codeOf_headTokens hi)
    (fun z => fitsNowhere_headCode hp hi hpath) hhead
  rw [registryText_eq]
  refine ⟨_, hfind, ?_⟩
  rw [MapBraces.entries, mapText, GrowingMap.body_written, GrowingMap.literalEntries_bodyText he.isEntry,
    flatMap_foundEntries]

/-! ### Functions -/

/-- Whether a text ends with a line and none of its lines begins like a function. -/
def IsUnheaded (a : Text) : Prop := 'f' ∉ lineHeads true a ∧ freshBehind true a

namespace IsUnheaded

lemma nil : IsUnheaded [] := ⟨List.not_mem_nil, rfl⟩

lemma append (ha : IsUnheaded a) (hb : IsUnheaded b) : IsUnheaded (a ++ b) := by
  unfold IsUnheaded
  rw [Detection.lineHeads_append, Detection.freshBehind_append, ha.2, List.mem_append, not_or]
  exact ⟨⟨ha.1, hb.1⟩, hb.2⟩

lemma line (hc : c ≠ 'f') (ha : '\n' ∉ c :: a) : IsUnheaded (c :: a ++ ['\n']) := by
  rw [List.mem_cons, not_or] at ha
  have hbreak : decide (c = '\n') = false := by simpa using Ne.symm ha.1
  constructor
  · rw [List.cons_append, lineHeads, if_pos rfl, hbreak, Detection.lineHeads_append, Detection.lineHeads_of_no_break ha.2,
      Detection.freshBehind_of_no_break ha.2 (.inl rfl)]
    simp [lineHeads, Ne.symm hc]
  · simp

lemma flatMap {α : Type} {f : α → Text} {xs : List α} (h : ∀ x ∈ xs, IsUnheaded (f x)) : IsUnheaded (xs.flatMap f) := by
  induction xs with
  | nil => exact nil
  | cons x xs ih =>
    rw [List.flatMap_cons]
    exact append (h x List.mem_cons_self) (ih fun y hy => h y (List.mem_cons_of_mem _ hy))

/-- No function is found in front. -/
lemma findAll_append (ha : IsUnheaded a) :
    Detection.findAll Detection.readFunction? true (a ++ b) = Detection.findAll Detection.readFunction? true b := by
  rw [Detection.findAll_readFunction?_of_not_mem ha.1, ha.2]

end IsUnheaded

lemma newline_not_mem_quote : '\n' ∉ quote s := by
  have hchar : ∀ c, '\n' ∉ quoteChar c := by
    intro c
    unfold quoteChar
    split <;> simp_all [eq_comm]
  rw [quote, List.mem_cons, List.mem_append, List.mem_flatMap, not_or, not_or]
  refine ⟨by decide, ?_, by decide⟩
  rintro ⟨c, -, hc⟩
  exact hchar c hc

lemma isUnheaded_lineText (hl : IsImportLine l) : IsUnheaded (lineText l) := by
  obtain ⟨_ | n, path⟩ := l
  · exact .line (by decide) (List.not_mem_cons_of_ne_of_not_mem (by decide) newline_not_mem_quote)
  · have hn : IsImportName n := hl n rfl
    have hname : '\n' ∉ n := fun h => absurd (List.all_eq_true.1 hn.all_isPathChar _ h) (by decide)
    have hspec : '\n' ∉ (n ++ " " ++ quote path : Text) := by
      rw [List.mem_append, List.mem_append, not_or, not_or]
      exact ⟨⟨hname, by decide⟩, newline_not_mem_quote⟩
    exact .line (by decide) (List.not_mem_cons_of_ne_of_not_mem (by decide) hspec)

lemma isUnheaded_renderImports (hi : ∀ l ∈ imports, IsImportLine l) : IsUnheaded (renderImports imports) := by
  have hopen : IsUnheaded ("import (\n" : String).toList := ⟨by decide, by decide⟩
  have hclose : IsUnheaded (")\n" : String).toList := ⟨by decide, by decide⟩
  have hgap : IsUnheaded (groupGap imports '\n') := by
    rcases groupGap_cases imports '\n' with e | e <;> rw [e]
    · exact .nil
    · exact ⟨by decide, by decide⟩
  have hstandard : IsUnheaded ((standardLines imports).flatMap lineText) :=
    .flatMap fun l hl => isUnheaded_lineText (hi l (mem_of_mem_standardLines hl))
  have hother : IsUnheaded ((otherLines imports).flatMap lineText) :=
    .flatMap fun l hl => isUnheaded_lineText (hi l (mem_of_mem_otherLines hl))
  rw [renderImports_eq]
  exact .append hopen (.append hstandard (.append hgap (.append hother hclose)))

lemma isUnheaded_headCode (hp : IsName package) (hi : ∀ l ∈ imports, IsImportLine l) : IsUnheaded (headCode package imports) := by
  have hname : '\n' ∉ "ackage ".toList ++ package := by
    rw [List.mem_append, not_or]
    exact ⟨by decide, fun h => absurd (List.all_eq_true.1 hp.all_isPathChar _ h) (by decide)⟩
  have hclause : IsUnheaded ('p' :: ("ackage ".toList ++ package) ++ ['\n']) :=
    .line (by decide) (List.not_mem_cons_of_ne_of_not_mem (by decide) hname)
  have hbreak : IsUnheaded ['\n'] := ⟨by decide, by decide⟩
  have hcomment : IsUnheaded (blanked Snippet.ruleMapComment ++ ['\n']) := ⟨by decide +kernel, by decide +kernel⟩
  have hsplit : headCode package imports = ('p' :: ("ackage ".toList ++ package) ++ ['\n']) ++ (['\n'] ++
      (renderImports imports ++ (['\n'] ++ (blanked Snippet.ruleMapComment ++ ['\n'])))) := by
    have hbreaks : "\n\n".toList = ['\n'] ++ ['\n'] := by decide
    have hpackage : "package ".toList = 'p' :: "ackage ".toList := by decide
    unfold headCode
    generalize blanked Snippet.ruleMapComment = comment
    rw [hbreaks, hpackage]
    simp only [List.append_assoc, List.cons_append, List.nil_append]
  rw [hsplit]
  exact .append hclause (.append hbreak (.append (isUnheaded_renderImports hi) (.append hbreak hcomment)))

lemma isUnheaded_entry {e : Text × Text} (h : isFunctionName e.2) :
    IsUnheaded (GrowingMap.renderEntry e.1 (.name e.2)) := by
  have hfunction : '\n' ∉ e.2 := GrowingMap.not_mem_of_isPathChar (all_isPathChar_of_isFunctionName h) (by decide)
  have hsplit : GrowingMap.renderEntry e.1 (.name e.2) = '\t' :: (quote e.1 ++ (": ".toList ++ (e.2 ++ ","))) ++ ['\n'] := by
    rw [GrowingMap.renderEntry, EntryValue.render]
    simp only [List.append_assoc, List.cons_append]
    rfl
  rw [hsplit]
  refine .line (by decide) (List.not_mem_cons_of_ne_of_not_mem (by decide) ?_)
  rw [List.mem_append, List.mem_append, List.mem_append, not_or, not_or, not_or]
  exact ⟨newline_not_mem_quote, by decide, hfunction, by decide⟩

/-- A registry file behind its rule map and the function that registers its entries. -/
def functionBlocks (kept functions : List Text) : Text :=
  (kept.flatMap fun s => '\n' :: (s ++ ['\n'])) ++ functions.flatMap ('\n' :: ·)

lemma registryTail_eq : registryTail kept functions =
    '\n' :: '\n' :: (Snippet.registerAll ++ functionBlocks kept functions) := by
  have hbreaks : "\n\n".toList = ['\n', '\n'] := by decide
  unfold registryTail functionBlocks
  generalize Snippet.registerAll = register
  simp only [hbreaks, List.flatMap_map, Node.render]
  rfl

/-- The code of a registry file. -/
lemma commentsBlanked_registryText (hp : IsName package) (hi : ∀ l ∈ imports, IsImportLine l) (he : AreEntries entries) :
    commentsBlanked (registryText package imports entries kept functions) =
      headCode package imports ++ ((Snippet.ruleMapHead ++ ['\x7b', '\n']) ++
        ((entries.flatMap fun e => GrowingMap.renderEntry e.1 (.name e.2)) ++
          (['\x7d', '\n'] ++ commentsBlanked ('\n' :: (Snippet.registerAll ++ functionBlocks kept functions))))) := by
  have hlex : lex (registryText package imports entries kept functions) = headTokens package imports ++
      (GrowingMap.mapLexemes (entries.map fun (tag, function) => (tag, EntryValue.name function)) ++
        lex (registryTail kept functions)) := by
    rw [registryText_eq, lex_registryHead_append hp hi mapText_head?, mapText, GrowingMap.lex_render_append he.isEntry,
      headTokens]
    simp only [List.append_assoc]
  have hcode : codeOf (GrowingMap.mapLexemes (entries.map fun (tag, function) => (tag, EntryValue.name function))) =
      '\x7b' :: '\n' :: ((entries.flatMap fun e => GrowingMap.renderEntry e.1 (.name e.2)) ++ ['\x7d']) := by
    rw [GrowingMap.codeOf_mapLexemes he.isEntry, GrowingMap.bodyText, List.flatMap_map]
    rfl
  have hclose : ∀ z, commentsBlanked ('\n' :: z) = '\n' :: commentsBlanked z := by
    intro z
    rw [commentsBlanked_eq, lex_newline]
    rfl
  have hsplit : ∀ u v z : Text, u ++ Snippet.ruleMapHead ++ ('\x7b' :: '\n' :: (v ++ ['\x7d']) ++ '\n' :: z) =
      u ++ ((Snippet.ruleMapHead ++ ['\x7b', '\n']) ++ (v ++ (['\x7d', '\n'] ++ z))) := by
    intro u v z
    generalize Snippet.ruleMapHead = head
    simp only [List.append_assoc, List.cons_append, List.nil_append]
  rw [commentsBlanked_eq, hlex, codeOf_append, codeOf_append, codeOf_headTokens hi, hcode, registryTail_eq,
    ← commentsBlanked_eq, hclose, hsplit]

/-- **The functions of a registry file** are those behind its rule map. -/
theorem functionNames_registryText (hp : IsName package) (hi : ∀ l ∈ imports, IsImportLine l) (he : AreEntries entries) :
    Detection.functionNames (registryText package imports entries kept functions) =
      "init".toList :: Detection.functionNames (functionBlocks kept functions) := by
  have hopen : IsUnheaded (Snippet.ruleMapHead ++ ['\x7b', '\n']) := ⟨by decide +kernel, by decide +kernel⟩
  have hentries : IsUnheaded (entries.flatMap fun e => GrowingMap.renderEntry e.1 (.name e.2)) :=
    .flatMap fun e h => isUnheaded_entry (he e h)
  have hbrace : IsUnheaded ['\x7d', '\n'] := ⟨by decide, by decide⟩
  rw [← Snippet.declares_registerAll.functionNames_append, Detection.functionNames, commentsBlanked_registryText hp hi he,
    (isUnheaded_headCode hp hi).findAll_append, hopen.findAll_append, hentries.findAll_append, hbrace.findAll_append]
  rfl

end RuleWeaver
