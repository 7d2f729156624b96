import RuleWeaver.Proofs.Registry.FileText
import RuleWeaver.Proofs.Registry.Parts
import RuleWeaver.Proofs.Source.LineBreaks

/-!
# Imports of a rebuilt registry

Which imports a registry file keeps when it is built anew.
-/

namespace RuleWeaver

open Source Text

variable {package : Text}

/-! ### Qualifiers of a text -/

section Qualifiers

variable {s a b : Text} {xs ys : List Lexeme}

/-- The names among lexemes that a dot follows. -/
def qualifierNames : List Lexeme → List Text
  | [] => []
  | l :: ls => (if l.kind = .ident ∧ ls.head?.any (·.kind = .dot) then [l.text] else []) ++ qualifierNames ls

lemma qualifierNames_cons_cons (l m : Lexeme) (ls : List Lexeme) :
    qualifierNames (l :: m :: ls) =
      (if l.kind = .ident ∧ m.kind = .dot then [l.text] else []) ++ qualifierNames (m :: ls) := by
  by_cases h : m.kind = .dot <;> simp [qualifierNames, h]

lemma qualifiers_eq (ts : List Token) : qualifiers ts = qualifierNames (ts.map Token.lexeme) := by
  induction ts with
  | nil => rfl
  | cons t ts ih =>
    rcases ts with _ | ⟨d, ts⟩
    · simp [qualifiers, qualifierNames]
    · simp only [List.map_cons] at ih ⊢
      rw [qualifiers, ih, qualifierNames_cons_cons]
      by_cases h : t.kind = .ident ∧ d.kind = .dot <;> simp [h]

lemma qualifierNames_append (h : xs.getLast?.all (·.kind ≠ .ident)) :
    qualifierNames (xs ++ ys) = qualifierNames xs ++ qualifierNames ys := by
  induction xs with
  | nil => rfl
  | cons l xs ih =>
    rcases xs with _ | ⟨m, xs⟩
    · have hl : l.kind ≠ .ident := by simpa using h
      simp [qualifierNames, hl]
    · have ih := ih (by simpa using h)
      rw [List.cons_append] at ih
      rw [List.cons_append, List.cons_append, qualifierNames_cons_cons, qualifierNames_cons_cons, ih, List.append_assoc]

/-- The names that a dot follows in the code of a text, if that is well formed. -/
def qualifiersOf? (s : Text) : Option (List Text) := (tokenize s).toOption.map qualifiers

/-- The lexemes of a text that are not blank. -/
def inkedLexemes (s : Text) : List Lexeme := (lex s).filter (·.kind ≠ .blank)

lemma qualifiersOf?_eq : qualifiersOf? s =
    if isWhole s && isBalanced [] (lex s) then some (qualifierNames (inkedLexemes s)) else none := by
  have hink : ((tokens s).filter (·.kind ≠ .blank)).map Token.lexeme = inkedLexemes s := by
    rw [inkedLexemes, ← map_lexeme_tokens, List.filter_map]
    rfl
  rw [qualifiersOf?]
  split
  · next h =>
    rw [Bool.and_eq_true] at h
    rw [tokenize_eq_ok_iff.2 ⟨h.1, h.2, rfl⟩, Except.toOption, Option.map_some, qualifiers_eq, hink]
  · next h =>
    cases e : tokenize s with
    | error => rfl
    | ok ts =>
      obtain ⟨h₁, h₂, -⟩ := tokenize_eq_ok_iff.1 e
      exact absurd (by rw [h₁, h₂]; rfl) h

lemma forall_tokenize_iff {name : Text} :
    (∀ ts, tokenize s = .ok ts → name ∈ qualifiers ts) ↔ (qualifiersOf? s).all (·.contains name) := by
  rw [qualifiersOf?]
  cases tokenize s with
  | error => simp [Except.toOption]
  | ok ts => simp [Except.toOption]

lemma Source.Stretched.head?_isDot (h : Stretched xs ys) :
    xs.head?.any (·.kind = .dot) = ys.head?.any (·.kind = .dot) := by
  cases h with
  | atEnd hl => simp [hl]
  | here => rfl
  | inside hk => simp [hk]
  | behind => rfl

lemma Source.Stretched.qualifierNames (h : Stretched xs ys) :
    RuleWeaver.qualifierNames xs = RuleWeaver.qualifierNames ys := by
  induction h with
  | atEnd hl => simp [RuleWeaver.qualifierNames, hl]
  | here hl ls => simp [RuleWeaver.qualifierNames, hl]
  | inside hk hl ls => 
    rcases hl with hl | hl | hl <;> simp [RuleWeaver.qualifierNames, ← hk, hl]
  | behind l h ih => rw [RuleWeaver.qualifierNames, RuleWeaver.qualifierNames, ih, h.head?_isDot]

lemma Source.Stretched.inked (h : Stretched xs ys) :
    Stretched (xs.filter (·.kind ≠ .blank)) (ys.filter (·.kind ≠ .blank)) := by
  induction h with
  | atEnd hl => 
    rw [List.filter_cons_of_pos (by simp [hl])]
    exact .atEnd hl
  | here hl ls =>
    rw [List.filter_cons_of_pos (by simp [hl]), List.filter_cons_of_pos (by simp [hl]),
      List.filter_cons_of_pos (by simp [hl])]
    exact .here hl _
  | inside hk hl ls =>
    rw [List.filter_cons_of_pos (by rcases hl with hl | hl | hl <;> simp [hl]),
      List.filter_cons_of_pos (by rw [← hk]; rcases hl with hl | hl | hl <;> simp [hl])]
    exact .inside hk hl _
  | behind l _ ih =>
    by_cases hl : l.kind = .blank
    · rwa [List.filter_cons_of_neg (by simpa using hl), List.filter_cons_of_neg (by simpa using hl)]
    · rw [List.filter_cons_of_pos (by simpa using hl), List.filter_cons_of_pos (by simpa using hl)]
      exact .behind l ih

lemma qualifiersOf?_congr {t : Text} (h : Stretched (lex s) (lex t)) : qualifiersOf? s = qualifiersOf? t := by
  rw [qualifiersOf?_eq, qualifiersOf?_eq, isWhole, isWhole, h.all_isSound, h.isBalanced, inkedLexemes, inkedLexemes,
    h.inked.qualifierNames]

lemma qualifiersOf?_doubled : qualifiersOf? (a ++ '\n' :: '\n' :: b) = qualifiersOf? (a ++ '\n' :: b) :=
  (qualifiersOf?_congr (stretched_lex a b)).symm

lemma qualifiersOf?_end : qualifiersOf? (a ++ ['\n']) = qualifiersOf? a :=
  (qualifiersOf?_congr (stretched_lex_end a)).symm

/-- Lexemes that are well formed by themselves and do not end in a name, with their qualifiers. -/
structure Adds (ls : List Lexeme) (names : List Text) : Prop where
  sound : ls.all Lexeme.isSound
  balanced : isBalanced [] ls
  names : qualifierNames (ls.filter (·.kind ≠ .blank)) = names
  last : (ls.filter (·.kind ≠ .blank)).getLast?.all (·.kind ≠ .ident)

lemma Adds.append {m n : List Text} (hx : Adds xs m) (hy : Adds ys n) : Adds (xs ++ ys) (m ++ n) where
  sound := by rw [List.all_append, hx.sound, hy.sound, Bool.and_self]
  balanced := by rw [isBalanced_append hx.balanced, hy.balanced]
  names := by rw [List.filter_append, qualifierNames_append hx.last, hx.names, hy.names]
  last := by
    rw [List.filter_append, List.getLast?_append]
    have hx := hx.last
    have hy := hy.last
    revert hx hy
    cases (ys.filter (·.kind ≠ .blank)).getLast? with
    | none => exact fun hx _ => hx
    | some l => exact fun _ hy => hy

/-- A text in front of a text adds its own qualifiers. -/
lemma qualifiersOf?_append {names : List Text} (hlex : lex (a ++ b) = xs ++ lex b) (ha : Adds xs names) :
    qualifiersOf? (a ++ b) = (qualifiersOf? b).map (names ++ ·) := by
  have hink : inkedLexemes (a ++ b) = xs.filter (·.kind ≠ .blank) ++ inkedLexemes b := by
    rw [inkedLexemes, hlex, List.filter_append]
    rfl
  have hwhole : isWhole (a ++ b) = isWhole b := by
    rw [isWhole, hlex, List.all_append, ha.sound, Bool.true_and]
    rfl
  rw [qualifiersOf?_eq, qualifiersOf?_eq, hwhole, hlex, isBalanced_append ha.balanced, hink,
    qualifierNames_append ha.last, ha.names]
  split <;> rfl

end Qualifiers

/-! ### Qualifiers of a rebuilt registry -/

section Text

variable {imports : List NewImport} {entries : List (Text × Text)} {kept functions : List Text} {x : Text}

/-- The text from which the imports in use are told, behind the rule map. -/
def bodyTail (kept functions : List Text) : Text :=
  "\n\n" ++ Snippet.registerAll ++ (kept ++ functions).flatMap fun s => '\n' :: s

/-- A file and the body from which its imports are told differ in line breaks. -/
lemma qualifiersOf?_registryTail :
    qualifiersOf? (x ++ registryTail kept functions) = qualifiersOf? (x ++ bodyTail kept functions) := by
  suffices key : ∀ x, qualifiersOf? (x ++ ((kept.map fun s => Node.function (s ++ "\n")).flatMap Node.render ++
      (functions.map Node.function).flatMap Node.render)) =
      qualifiersOf? (x ++ (kept ++ functions).flatMap fun s => '\n' :: s) by
    have := key (x ++ ("\n\n" ++ Snippet.registerAll))
    unfold registryTail bodyTail
    simp only [List.append_assoc] at this ⊢
    exact this
  have hfun : (functions.map Node.function).flatMap Node.render = functions.flatMap fun s => '\n' :: s := by
    rw [List.flatMap_map]
    rfl
  rw [hfun]
  induction kept with
  | nil =>
    intro x
    rfl
  | cons s kept ih =>
    intro x
    have hstart : ∀ r : Text, r = [] ∨ (∃ r', r = '\n' :: r') →
        qualifiersOf? (x ++ '\n' :: (s ++ '\n' :: r)) = qualifiersOf? (x ++ '\n' :: (s ++ r)) := by
      rintro r (rfl | ⟨r', rfl⟩)
      · simpa using qualifiersOf?_end (a := x ++ '\n' :: s)
      · simpa using qualifiersOf?_doubled (a := x ++ '\n' :: s) (b := r')
    have hrest : ∀ k : List Text, (k.map fun s => Node.function (s ++ "\n")).flatMap Node.render ++
        (functions.flatMap fun s => '\n' :: s) = [] ∨ ∃ r', (k.map fun s => Node.function (s ++ "\n")).flatMap Node.render ++
        (functions.flatMap fun s => '\n' :: s) = '\n' :: r' := by
      rintro (_ | ⟨t, k⟩)
      · rcases functions with _ | ⟨f, functions⟩
        · exact .inl rfl
        · exact .inr ⟨_, rfl⟩
      · exact .inr ⟨_, rfl⟩
    have := ih (x ++ '\n' :: s)
    rw [List.append_assoc, List.append_assoc, List.cons_append, List.cons_append, ← hstart _ (hrest kept)] at this
    rw [List.map_cons, List.flatMap_cons, List.cons_append, List.flatMap_cons, List.append_assoc]
    simpa [Node.render] using this

lemma adds_lines (hi : ∀ l ∈ imports, IsImportLine l) : Adds (imports.flatMap lineLexemes) [] := by
  induction imports with
  | nil => exact ⟨rfl, rfl, rfl, rfl⟩
  | cons l lines ih =>
    have hline : Adds (lineLexemes l) [] := by
      have hl := hi l List.mem_cons_self
      obtain ⟨_ | n, path⟩ := l
      · exact ⟨rfl, rfl, rfl, rfl⟩
      · obtain ⟨k, hk, hlex⟩ := hl n rfl
        simp only [lineLexemes, hlex]
        rcases hk with rfl | rfl <;> exact ⟨rfl, rfl, rfl, rfl⟩
    exact hline.append (ih fun m hm => hi m (List.mem_cons_of_mem _ hm))

/-- Lexemes in the parentheses of an import group. -/
lemma Adds.inGroup {ls : List Lexeme} (h : Adds ls []) :
    Adds ([⟨.importWord, "import"⟩, ⟨.blank, [' ']⟩, ⟨.lparen, ['(']⟩, ⟨.newline, ['\n']⟩] ++ ls ++
      [⟨.rparen, [')']⟩, ⟨.newline, ['\n']⟩]) [] where
  sound := by
    rw [List.all_append, List.all_append, h.sound]
    rfl
  balanced := by
    show isBalanced [.lparen] (ls ++ [⟨.rparen, [')']⟩, ⟨.newline, ['\n']⟩]) = true
    rw [isBalanced_append h.balanced]
    rfl
  names := by
    rw [List.filter_append, List.filter_append, List.append_assoc, qualifierNames_append (by rfl),
      qualifierNames_append h.last, h.names]
    rfl
  last := by
    rw [List.filter_append, List.getLast?_append]
    rfl

lemma adds_group (hi : ∀ l ∈ imports, IsImportLine l) : Adds (groupLexemes imports) [] := by
  have hstandard : Adds ((standardLines imports).flatMap lineLexemes) [] :=
    adds_lines fun l hl => hi l (mem_of_mem_standardLines hl)
  have hother : Adds ((otherLines imports).flatMap lineLexemes) [] :=
    adds_lines fun l hl => hi l (mem_of_mem_otherLines hl)
  have hgap : Adds (groupGap imports ⟨.newline, ['\n']⟩) [] := by
    rcases groupGap_cases imports (⟨.newline, ['\n']⟩ : Lexeme) with e | e <;> rw [e] <;> exact ⟨rfl, rfl, rfl, rfl⟩
  have h := ((hstandard.append hgap).append hother).inGroup
  simpa only [groupLexemes, List.append_assoc] using h

/-- In front of the rule map only the engine is qualified. -/
lemma qualifiersOf?_unmapped (hp : IsName package) (hi : ∀ l ∈ imports, IsImportLine l) :
    qualifiersOf? (registryText package imports [] kept functions) =
      (qualifiersOf? (registryTail kept functions)).map (["validator".toList] ++ ·) := by
  have hmap : Adds (lex mapHead ++ lex "\x7b\n\x7d") ["validator"] := by
    constructor <;> decide +kernel
  have hpackage : Adds [⟨.packageWord, "package"⟩, ⟨.blank, [' ']⟩, ⟨.ident, package⟩, ⟨.newline, ['\n']⟩,
      ⟨.newline, ['\n']⟩] [] := ⟨rfl, rfl, rfl, rfl⟩
  have hlex : lex (registryHead package imports ++ mapText [] ++ registryTail kept functions) =
      [⟨.packageWord, "package"⟩, ⟨.blank, [' ']⟩, ⟨.ident, package⟩, ⟨.newline, ['\n']⟩, ⟨.newline, ['\n']⟩] ++
        (groupLexemes imports ++ (lex mapHead ++ lex "\x7b\n\x7d")) ++ lex (registryTail kept functions) := by
    have hclose : lex (mapText [] ++ registryTail kept functions) =
        lex "\x7b\n\x7d" ++ lex (registryTail kept functions) := by
      rw [mapText_nil]
      refine lex_append (by decide +kernel) fun l hl => ?_
      exact precedes_newline
    rw [List.append_assoc, lex_registryHead_append hp hi mapText_head?, hclose]
    simp only [List.append_assoc]
  rw [registryText_eq, ← List.append_assoc, qualifiersOf?_append hlex (hpackage.append ((adds_group hi).append hmap))]
  rfl

/-- In front of the text from which the imports in use are told, too. -/
lemma qualifiersOf?_body :
    qualifiersOf? (Snippet.ruleMapHead ++ "\x7b\x7d\n\n" ++ Snippet.registerAll ++
        (kept ++ functions).flatMap fun s => '\n' :: s) =
      (qualifiersOf? (bodyTail kept functions)).map (["validator".toList] ++ ·) := by
  have hmap : Adds (lex (Snippet.ruleMapHead ++ "\x7b\x7d")) ["validator"] := by
    constructor <;> decide +kernel
  have hlex : lex (Snippet.ruleMapHead ++ "\x7b\x7d" ++ bodyTail kept functions) =
      lex (Snippet.ruleMapHead ++ "\x7b\x7d") ++ lex (bodyTail kept functions) :=
    lex_append (by rw [isWhole, hmap.sound]) fun l hl => precedes_newline
  rw [← qualifiersOf?_append hlex hmap]
  congr 1

end Text

/-! ### Imports that are kept -/

section Kept

variable {existing file rebuilt : Text} {tree : Tree} {additions : Additions} {registry : Registry}
  {required : Requirements}

/-- The name that an import binds, where that can be told. -/
def Source.ImportSpec.boundName? (s : ImportSpec) : Option Text := s.line.boundName?

lemma boundName?_newLine (s : ImportSpec) : s.newLine.boundName? = s.boundName? := by
  have hpath : pathName? Snippet.validatorPath = some "validator".toList := by decide +kernel
  obtain ⟨_ | n, path, span⟩ := s
  · rfl
  · rw [ImportSpec.newLine, ImportSpec.boundName?, ImportSpec.line]
    dsimp only
    rw [Option.filter_some]
    split
    · rfl
    · next h =>
      rw [Bool.or_eq_true, not_or, decide_eq_true_eq, decide_eq_true_eq, not_not, not_not] at h
      obtain ⟨rfl, rfl⟩ := h
      exact hpath

lemma mem_importsInUse {body : Text} {l : NewImport} {lines : List NewImport} :
    l ∈ importsInUse body lines ↔
      l ∈ lines ∧ l.boundName?.all fun name => (qualifiersOf? body).all (·.contains name) := by
  rw [importsInUse, qualifiersOf?]
  cases tokenize body with
  | error => cases l.boundName? <;> simp [Except.toOption]
  | ok ts => simp [Except.toOption]

/-- Outside its rule map a rebuilt registry has the qualifiers of the declarations it keeps and gains. -/
lemma qualifiersOf?_rebuilt (htree : parse existing = .ok tree) :
    qualifiersOf? (RegistryParts.rebuilt existing tree additions registry required).unmapped.text =
      (qualifiersOf? (bodyTail (RegistryParts.rebuilt existing tree additions registry required).kept
        (RegistryParts.rebuilt existing tree additions registry required).functions)).map (["validator".toList] ++ ·) := by
  have hpackage := (parse_names htree).1
  have himports : ∀ l ∈ (RegistryParts.rebuilt existing tree additions registry required).imports, IsImportLine l :=
    isImportLine_of_mem_rebuilt htree
  have h : qualifiersOf? (RegistryParts.rebuilt existing tree additions registry required).unmapped.text = _ :=
    qualifiersOf?_unmapped hpackage himports
  rw [show qualifiersOf? (registryTail _ _) = _ from qualifiersOf?_registryTail (x := [])] at h
  exact h

/-- The imports of a rebuilt registry are chosen as its text outside the rule map asks for. -/
lemma exists_rebuilt_imports (htree : parse existing = .ok tree) :
    ∃ body lines, (RegistryParts.rebuilt existing tree additions registry required).imports = importsInUse body lines ∧
      qualifiersOf? body =
        qualifiersOf? (RegistryParts.rebuilt existing tree additions registry required).unmapped.text ∧
      (∀ l ∈ lines, IsImportLine l) ∧ ∀ s ∈ tree.imports.flatMap (·.specs), s.newLine ∈ lines := by
  refine ⟨_, _, rfl, ?_, isImportLine_rebuilt (parse_names htree).2, ?_⟩
  · rw [qualifiersOf?_body, qualifiersOf?_rebuilt htree]
    rfl
  · intro s hs
    rw [List.mem_append, List.mem_append]
    exact .inl (.inl (List.mem_map_of_mem hs))

/-- **Which imports a rebuilt registry keeps.**  It imports what an old import bound exactly if the name stands in front
of a dot somewhere outside the rule map, or the file is not well formed there. -/
theorem regenerated_keeps_import_iff {package name : Text} {s : ImportSpec} (htree : parse existing = .ok tree)
    (h : registryRendering file (some existing) package additions registry required = .ok (.regenerated rebuilt))
    (hs : s ∈ tree.imports.flatMap (·.specs)) (hname : s.boundName? = some name) :
    (∃ t ∈ importSpecs rebuilt, t.boundName? = some name ∧ t.path = s.path) ↔
      ∀ ts, tokenize (RegistryParts.rebuilt existing tree additions registry required).unmapped.text = .ok ts →
        name ∈ qualifiers ts := by
  obtain ⟨body, lines, himports, hbody, hlines, hmem⟩ := @exists_rebuilt_imports existing tree additions registry required htree
  have hpackage : IsName (RegistryParts.rebuilt existing tree additions registry required).package :=
    (parse_names htree).1
  rw [regenerated_eq htree h, forall_tokenize_iff]
  generalize RegistryParts.rebuilt existing tree additions registry required = parts at *
  have hread : ∀ l, (∃ t ∈ importSpecs parts.text, t.line = l) ↔ l ∈ parts.imports := by
    intro l
    have himp : ∀ l ∈ parts.imports, IsImportLine l := by
      intro l hl
      rw [himports] at hl
      exact hlines l (mem_importsInUse.1 hl).1
    rw [← mem_orderedLines, ← @importSpecs_registryText _ parts.entries parts.kept parts.functions _ hpackage himp,
      List.mem_map]
    rfl
  constructor
  · rintro ⟨t, ht, hbound, -⟩
    have hused := (hread t.line).1 ⟨t, ht, rfl⟩
    rw [himports] at hused
    have := (mem_importsInUse.1 hused).2
    rw [show t.line.boundName? = some name from hbound, Option.all_some, hbody] at this
    exact this
  · intro hused
    have hkept : s.newLine ∈ parts.imports := by
      rw [himports]
      refine mem_importsInUse.2 ⟨hmem s hs, ?_⟩
      rw [boundName?_newLine, hname, Option.all_some, hbody]
      exact hused
    obtain ⟨t, ht, hline⟩ := (hread _).2 hkept
    refine ⟨t, ht, ?_, congrArg NewImport.path hline⟩
    rw [ImportSpec.boundName?, hline, boundName?_newLine, hname]

/-- A function that only an entry of the rule map names loses the import of its package. -/
theorem regenerated_loses_import_of_entry :
    ∃ rebuilt, registryRendering "r.go" (some "package p\nimport \"a/b\"\n") "p" ⟨[], [⟨"x", "b.F"⟩], [], []⟩
        { Registry.empty with bindings := [("x", "b.F")] } ⟨[⟨"x", "b.F", none, true⟩], []⟩ =
          .ok (.regenerated rebuilt) ∧
      ¬ ∃ t ∈ importSpecs rebuilt, t.boundName? = some "b".toList ∧ t.path = "a/b".toList := by
  have htree : parse "package p\nimport \"a/b\"\n" =
      .ok ⟨⟨"p", ⟨0, 9⟩⟩, [⟨[⟨none, "a/b", ⟨17, 22⟩⟩], ⟨10, 22⟩, 10, false⟩], []⟩ := ok_of_toOption (by decide +kernel)
  obtain ⟨rebuilt, hregenerated⟩ : ∃ rebuilt, registryRendering "r.go" (some "package p\nimport \"a/b\"\n") "p"
      ⟨[], [⟨"x", "b.F"⟩], [], []⟩ { Registry.empty with bindings := [("x", "b.F")] } ⟨[⟨"x", "b.F", none, true⟩], []⟩ =
        .ok (.regenerated rebuilt) := ⟨_, by rw [registryRendering, htree]; rfl⟩
  refine ⟨rebuilt, hregenerated, ?_⟩
  have hbound : Source.ImportSpec.boundName? ⟨none, "a/b", ⟨17, 22⟩⟩ = some "b".toList := by decide +kernel
  have h := regenerated_keeps_import_iff htree hregenerated (by decide) hbound
  rw [h, forall_tokenize_iff, qualifiersOf?_rebuilt htree]
  have hkept : (RegistryParts.rebuilt "package p\nimport \"a/b\"\n"
      ⟨⟨"p", ⟨0, 9⟩⟩, [⟨[⟨none, "a/b", ⟨17, 22⟩⟩], ⟨10, 22⟩, 10, false⟩], []⟩ ⟨[], [⟨"x", "b.F"⟩], [], []⟩
      { Registry.empty with bindings := [("x", "b.F")] } ⟨[⟨"x", "b.F", none, true⟩], []⟩).kept = [] := rfl
  have hfunctions : (RegistryParts.rebuilt "package p\nimport \"a/b\"\n"
      ⟨⟨"p", ⟨0, 9⟩⟩, [⟨[⟨none, "a/b", ⟨17, 22⟩⟩], ⟨10, 22⟩, 10, false⟩], []⟩ ⟨[], [⟨"x", "b.F"⟩], [], []⟩
      { Registry.empty with bindings := [("x", "b.F")] } ⟨[⟨"x", "b.F", none, true⟩], []⟩).functions = [] := rfl
  rw [hkept, hfunctions, qualifiersOf?_eq, isWhole, inkedLexemes]
  decide +kernel

end Kept

end RuleWeaver
